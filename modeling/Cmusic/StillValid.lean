import Cmusic.MempoolIndependence
import Cmusic.RemoveForBlock

/-! What `removeForBlock` leaves in the memory pool, against the asset rules after the block. -/
namespace Cmusic

open Fallible Std CTxMemPool Maps

section Outputs

variable {env : Env} {tx : CTransaction} {outpoint : COutPoint} {out : CTxOut}

theorem length_le_sum_map {α : Type} (l : List α) (size : α → Nat) (h : ∀ a ∈ l, 1 ≤ size a) :
    l.length ≤ (l.map size).sum := by
  calc l.length = (l.map fun _ => 1).sum := by simp
    _ ≤ _ := List.sum_le_sum h

theorem length_le_strippedSize (tx : CTransaction) :
    tx.vin.length + tx.vout.length ≤ tx.strippedSize := by
  have hvi := length_le_sum_map tx.vin (fun txin : CTxIn =>
    36 + ((writeCompactSize txin.scriptSig.length).length + txin.scriptSig.length) + 4)
    fun _ _ => by omega
  have hv := length_le_sum_map tx.vout (fun out : CTxOut =>
    8 + ((writeCompactSize out.scriptPubKey.length).length + out.scriptPubKey.length))
    fun _ _ => by omega
  unfold CTransaction.strippedSize
  dsimp only
  omega

theorem length_of_checkTransaction {fCheckDuplicateInputs fMempoolCheck fBlockCheck : Bool}
    (h : checkTransaction env tx fCheckDuplicateInputs fMempoolCheck fBlockCheck = .ok ()) :
    tx.vin.length < 2 ^ 32 ∧ tx.vout.length < 2 ^ 32 := by
  simp only [checkTransaction, rejectIf, failIf_bind_eq_ok] at h
  have hsi := h.2.2.1
  have hle := length_le_strippedSize tx
  simp only [witnessScaleFactor, maxBlockWeight, gt_iff_lt, decide_eq_false_iff_not, Nat.not_lt] at hsi
  omega

/-- The index of an outpoint gives its output. -/
theorem getElem?_of_mem_outpoints (hl : tx.vout.length < 2 ^ 32)
    (h : (outpoint, out) ∈ tx.outpoints) : tx.vout[outpoint.n.toNat]? = some out := by
  simp only [CTransaction.outpoints, List.mem_map, Prod.exists, Prod.mk.injEq] at h
  obtain ⟨txout, i, hm, rfl, rfl⟩ := h
  rw [List.mem_zipIdx_iff_getElem?] at hm
  have hi : i < tx.vout.length := (List.getElem?_eq_some_iff.1 hm).1
  have hsm : (UInt32.ofNat i).toNat = i := UInt32.toNat_ofNat_of_lt' (by simpa using hi.trans hl)
  rw [hsm]
  exact hm

end Outputs

section Views

variable {pool : CTxMemPool} {base : TreeMap COutPoint Coin} {tx : CTransaction}
  {outpoint : COutPoint}

/-- The view of a transaction shows the coins of its inputs as the pool shows them. -/
theorem getCoin_inputView {tip : CCoinsViewCache} (ho : outpoint ∈ tx.vin.map CTxIn.prevout) :
    (pool.inputView tip tx).getCoin outpoint =
      (pool.getCoin tip outpoint).filter fun coin => !coin.isSpent := by
  obtain ⟨step, hstep, hb⟩ : ∃ step : TreeMap COutPoint Coin → CTxIn → TreeMap COutPoint Coin,
      (∀ base txin, step base txin = (pool.getCoin tip txin.prevout).elim base
        (base.insert txin.prevout)) ∧ (pool.inputView tip tx).base = tx.vin.foldl step ∅ := by
    refine ⟨_, fun base txin => ?_, rfl⟩
    cases pool.getCoin tip txin.prevout <;> rfl
  have hf : ∀ (vin : List CTxIn) (m : TreeMap COutPoint Coin), (vin.foldl step m)[outpoint]? =
        if outpoint ∈ vin.map CTxIn.prevout then pool.getCoin tip outpoint <|> m[outpoint]?
        else m[outpoint]? := by
    intro vin
    induction vin with
    | nil => simp
    | cons txin vin ih =>
      intro m
      rw [List.foldl_cons, ih, List.map_cons, hstep]
      by_cases hk : outpoint = txin.prevout
      · subst hk
        cases hc : pool.getCoin tip txin.prevout <;> simp
      · cases pool.getCoin tip txin.prevout with
        | none => simp [hk]
        | some coin => simp [hk, TreeMap.getElem?_insert, Ne.symm hk]
  rw [CCoinsViewCache.getCoin_of_not_cached TreeMap.getElem?_emptyc, CCoinsViewCache.baseCoin, hb,
    hf, if_pos ho]
  simp

variable {rules : BlockRules} {env : Env} {g : AssetGlobals} {mempool : MempoolAssets}
  {node : NodeState} {nHeight : Nat} {cache : CAssetsCache} {block : CBlock} {conn : Connected}

/-- A coin that the pool shows before a block and the chain after it has the same output. -/
theorem out_eq_of_connectBlock (h : pool.BesideBlock base block.vtx)
    (hg : block.header.getHash rules.params ≠ rules.params.hashGenesisBlock)
    (hcon : connectBlock rules env g mempool node nHeight { view := { base }, cache } block =
      .ok conn) {coin coin' : Coin} (hco : pool.getCoin { base } outpoint = some coin)
    (ha : CCoinsViewCache.getCoin { base := conn.st.view.flush } outpoint = some coin') :
    coin'.out = coin.out := by
  rw [getCoin_after hg h.newIds hcon] at ha
  have hc : ∀ e ∈ block.vtx.map (CTransaction.ledgerEntry nHeight),
      (outpoint, coin') ∈ e.created → ∃ t ∈ block.vtx, t.hash = outpoint.hash ∧
        t.vout[outpoint.n.toNat]? = some coin'.out := by
    intro e he hr
    obtain ⟨t, ht, rfl⟩ := List.mem_map.1 he
    obtain ⟨-, -, hch⟩ := transactions_of_checkBlock (connectBlock_cases hcon).1
    simp only [CTransaction.ledgerEntry, List.mem_map, List.mem_filter, Prod.exists,
      Prod.mk.injEq] at hr
    obtain ⟨o, out, ⟨hout, -⟩, rfl, rfl⟩ := hr
    exact ⟨t, ht, (hash_of_mem_outpoints hout).symm,
      getElem?_of_mem_outpoints (length_of_checkTransaction (hch t ht)).2 hout⟩
  unfold getCoin at hco
  split at hco
  next parent hp =>
    -- an unconfirmed parent: the block has put the coin in
    rcases Ledger.run_eq_some ha with hb | ⟨e, he, hr⟩
    · have hm : outpoint.hash ∈ pool.mapTx :=
        mem_of_getElem? hp
      rw [h.unconfirmed _ hm outpoint rfl] at hb
      cases hb
    · obtain ⟨t, ht, hh, hout⟩ := hc e he hr
      rw [← hh] at hp
      obtain rfl := h.sameId t ht parent hp
      rw [hout, Option.map_some, Option.some.injEq] at hco
      rw [← hco]
  next =>
    rcases Ledger.run_eq_some ha with hb | ⟨e, he, hr⟩
    · rw [hco] at hb
      rw [Option.some.inj hb]
    · obtain ⟨t, ht, hh, -⟩ := hc e he hr
      rw [h.newIds.new t ht outpoint hh.symm] at hco
      cases hco

end Views

section Rules

variable {env : Env} {g g' : AssetGlobals} {cache cache' : CAssetsCache}
  {view view' : CCoinsViewCache} {tx : CTransaction}

/-- No input of a restricted asset comes from a frozen address. -/
def NotFrozen (env : Env) (g : AssetGlobals) (view : CCoinsViewCache) (vin : List CTxIn) : Prop :=
  ∀ txin ∈ vin, ∀ coin data, view.getCoin txin.prevout = some coin →
    getAssetData env coin.out.scriptPubKey = some data →
      isAssetNameAnRestricted data.assetName = true → g.frozen data.assetName data.address = false

/-- The rules for the outputs of a transaction that read the asset state. -/
structure RulesHold (env : Env) (g : AssetGlobals) (tx : CTransaction) : Prop where
  transfers : ∀ out ∈ tx.vout, ∀ transfer address,
    transferAssetFromScript env out.scriptPubKey = some (transfer, address) →
      assetNameType transfer.strName = some .restricted →
        g.globallyFrozen transfer.strName = false ∧
          ∃ verifier, g.verifierString transfer.strName = some verifier ∧
            contextualCheckVerifierString env g g.passets verifier address = .ok ()
  units : ∀ out ∈ tx.vout, ∀ transfer address,
    transferAssetFromScript env out.scriptPubKey = some (transfer, address) →
      checkTransferUnits g g.passets transfer = .ok ()
  commands : ∀ out ∈ tx.vout, checkNullAssetOut env g g.passets out = .ok ()
  assetClass : contextualCheckAssetClass env g g.passets tx {} false = .ok ()

/-- The inputs give the same totals over other coins with the same outputs, and another state in
which no address is frozen. -/
theorem foldlM_scanAssetInput_congr {vin : List CTxIn} {totals totals' : StrMap CAmount}
    (h : vin.foldlM (scanAssetInput env g cache view) totals = .ok totals')
    (hco : ∀ txin ∈ vin, ∃ coin coin', view.getCoin txin.prevout = some coin ∧
      view'.getCoin txin.prevout = some coin' ∧ coin'.out = coin.out)
    (hf : NotFrozen env g' view' vin) :
    vin.foldlM (scanAssetInput env g' cache' view') totals = .ok totals' := by
  induction vin generalizing totals with
  | nil => exact h
  | cons txin vin ih =>
    obtain ⟨mid, hstep, hr⟩ := bind_eq_ok.1 h
    refine bind_eq_ok.2 ⟨mid, ?_, ih hr (fun t ht => hco t (List.mem_cons_of_mem _ ht))
      fun t ht => hf t (List.mem_cons_of_mem _ ht)⟩
    obtain ⟨coin, coin', hc, hc', hout⟩ := hco txin List.mem_cons_self
    obtain ⟨_, hre, hstep⟩ := bind_eq_ok.1 hstep
    obtain rfl := Option.some.inj (hc.symm.trans (payloadOr_eq_ok.1 hre))
    refine bind_eq_ok.2 ⟨coin', payloadOr_eq_ok.2 hc', ?_⟩
    rw [hout]
    split at hstep
    next ha =>
      obtain ⟨data, hd, hstep⟩ := bind_eq_ok.1 hstep
      rw [if_pos ha]
      refine bind_eq_ok.2 ⟨data, hd, failIf_bind_eq_ok.2 ⟨?_, (failIf_bind_eq_ok.1 hstep).2⟩⟩
      rw [Bool.and_eq_false_iff]
      cases hname : isAssetNameAnRestricted data.assetName with
      | false => exact Or.inl rfl
      | true =>
        right
        refine hf txin List.mem_cons_self coin' data hc' ?_ hname
        rw [hout]
        exact payloadOr_eq_ok.1 hd
    next hplain =>
      rw [if_neg hplain]
      exact hstep

theorem contextualCheckTransferAsset_congr {transfer : CAssetTransfer} {address : Str}
    (h : contextualCheckTransferAsset env g cache transfer address = .ok ())
    (hru : assetNameType transfer.strName = some .restricted →
      g'.globallyFrozen transfer.strName = false ∧
        ∃ verifier, g'.verifierString transfer.strName = some verifier ∧
          contextualCheckVerifierString env g' cache' verifier address = .ok ()) :
    contextualCheckTransferAsset env g' cache' transfer address = .ok () := by
  rw [← h]
  by_cases hr : assetNameType transfer.strName = some .restricted
  · obtain ⟨hg, verifier, u, hst, hverify⟩ := of_contextualCheckTransferAsset h hr
    obtain ⟨hg', verifier', hs', hv'⟩ := hru hr
    have hf : cache'.checkForGlobalRestriction g' transfer.strName true =
        cache.checkForGlobalRestriction g transfer.strName true := hg'.trans hg.symm
    have hsa : transfer.contextualCheckAgainstVerifyString env g' cache' address =
        transfer.contextualCheckAgainstVerifyString env g cache address := by
      have hre : cache.getAssetVerifierStringIfExists g transfer.strName true = some verifier :=
        hst
      have hr' : cache'.getAssetVerifierStringIfExists g' transfer.strName true = some verifier' :=
        hs'
      simp only [CAssetTransfer.contextualCheckAgainstVerifyString, hre, hr', hverify, hv']
    simp only [contextualCheckTransferAsset, hf, hsa]
  · unfold contextualCheckTransferAsset
    split
    · rfl
    next type ht =>
      have hne : type ≠ .restricted := fun heq => hr (heq ▸ ht)
      simp only [if_neg hne]

/-- The outputs are scanned alike in another state whose rules hold. -/
theorem foldlM_scanAssetOutput_congr {vout : List CTxOut} {txid : UInt256} {outs r : AssetOutputs}
    (h : vout.foldlM (scanAssetOutput env g cache {} txid) outs = .ok r)
    (hco : ∀ out ∈ vout, checkNullAssetOut env g' cache' out = .ok ())
    (htr : ∀ out ∈ vout, ∀ transfer address,
      transferAssetFromScript env out.scriptPubKey = some (transfer, address) →
        (assetNameType transfer.strName = some .restricted →
          g'.globallyFrozen transfer.strName = false ∧
            ∃ verifier, g'.verifierString transfer.strName = some verifier ∧
              contextualCheckVerifierString env g' cache' verifier address = .ok ()) ∧
        checkTransferUnits g' cache' transfer = .ok ()) :
    vout.foldlM (scanAssetOutput env g' cache' {} txid) outs = .ok r := by
  induction vout generalizing outs with
  | nil => exact h
  | cons out vout ih =>
    obtain ⟨mid, hstep, hre⟩ := bind_eq_ok.1 h
    obtain ⟨hout, hv⟩ := List.forall_mem_cons.1 hco
    obtain ⟨ht, htr⟩ := List.forall_mem_cons.1 htr
    refine bind_eq_ok.2 ⟨mid, ?_, ih hre hv htr⟩
    obtain ⟨ha, -, hki⟩ := scanAssetOutput_eq_ok.1 hstep
    refine scanAssetOutput_eq_ok.2 ⟨ha, hout, ?_⟩
    unfold scanKind at hki ⊢
    split at hki
    · obtain ⟨transfer, address, hp, hc, -, hr⟩ := hki
      obtain ⟨hru, hu⟩ := ht transfer address hp
      exact ⟨transfer, address, hp, contextualCheckTransferAsset_congr hc hru, hu, hr⟩
    · exact hki
    · exact hki

/-- The checks of a transaction whose inputs are there, in parts. -/
theorem checkTxAssets_parts : (∃ r, checkTxAssets env g cache tx view {} false = .ok r) ↔
      view.haveInputs tx = true ∧ ∃ totals outs,
        tx.vin.foldlM (scanAssetInput env g cache view) ∅ = .ok totals ∧
        tx.vout.foldlM (scanAssetOutput env g cache {} tx.hash) {} = .ok outs ∧
        contextualCheckAssetClass env g cache tx {} false = .ok () ∧
        compareTotals totals outs.totalOutputs = .ok () := by
  simp only [checkTxAssets, rejectIf, bind_eq_ok, pure_eq_ok, failIf_eq_ok, Bool.not_eq_false']
  constructor
  · rintro ⟨_, _, hi, totals, hin, outs, hout, _, hclass, _, ht, -⟩
    exact ⟨hi, totals, outs, hin, hout, hclass, ht⟩
  · rintro ⟨hi, totals, outs, hin, hout, hclass, ht⟩
    exact ⟨_, (), hi, totals, hin, outs, hout, (), hclass, (), ht, rfl⟩

/-- A transaction that has passed the checks passes them again over the same outputs exactly when
none of its addresses is frozen and the rules for its outputs hold. -/
theorem checkTxAssets_again (hcb : tx.isCoinBase = false)
    (hb : ∃ r, checkTxAssets env g cache tx view {} false = .ok r)
    (hco : ∀ txin ∈ tx.vin, ∃ coin coin', view.getCoin txin.prevout = some coin ∧
      view'.getCoin txin.prevout = some coin' ∧ coin'.out = coin.out) :
    (∃ r, checkTxAssets env g' g'.passets tx view' {} false = .ok r) ↔
      NotFrozen env g' view' tx.vin ∧ RulesHold env g' tx := by
  constructor
  · rintro ⟨r, hr⟩
    obtain ⟨-, totals, outs, hin, hout, hclass, -⟩ := checkTxAssets_parts.1 ⟨r, hr⟩
    refine ⟨fun txin ht coin data hc hd hname =>
      not_frozen_of_checkTxAssets hr ht hc hd hname, ⟨?_, ?_, ?_, hclass⟩⟩
    · intro out hm transfer address hp hty
      obtain ⟨hf, verifier, _, hst, hverify⟩ := of_contextualCheckTransferAsset
        (exists_checkTransfer hr hm hp) hty
      exact ⟨hf, verifier, hst, hverify⟩
    · intro out hm transfer address hp
      obtain ⟨_, _, hstep⟩ := step_ok_of_foldlM hout out hm
      obtain ⟨s, hs, hty⟩ := isAssetScript_of_transfer hp
      have hki := (scanAssetOutput_eq_ok.1 hstep).2.2
      rw [hs, Option.map_some, hty] at hki
      obtain ⟨_, _, hre, -, hu, -⟩ := hki
      cases hp.symm.trans hre
      exact hu
    · intro out hm
      obtain ⟨_, _, hstep⟩ := step_ok_of_foldlM hout out hm
      exact (scanAssetOutput_eq_ok.1 hstep).2.1
  · rintro ⟨hf, hru⟩
    obtain ⟨-, totals, outs, hin, hout, -, hto⟩ := checkTxAssets_parts.1 hb
    refine checkTxAssets_parts.2 ⟨?_, totals, outs, foldlM_scanAssetInput_congr hin hco hf,
      foldlM_scanAssetOutput_congr hout hru.commands (fun out hm transfer address hp =>
        ⟨hru.transfers out hm transfer address hp,
          hru.units out hm transfer address hp⟩), hru.assetClass, hto⟩
    rw [CCoinsViewCache.haveInputs, hcb, Bool.false_or, List.all_eq_true]
    intro txin ht
    obtain ⟨_, coin', -, hc', -⟩ := hco txin ht
    rw [CCoinsViewCache.haveCoin, hc']
    rfl

end Rules

section Marks

variable {rules : BlockRules} {env : Env} {g : AssetGlobals} {mempool : MempoolAssets}
  {nHeight : Nat} {blockHash : UInt256} {cache : CAssetsCache} {tx : CTransaction}
  {key : Str × Str}

theorem freezes_addQualifierAddress (assetName address : Str) (type : QualifierType) :
    (cache.addQualifierAddress assetName address type).newRestrictedAddress =
      cache.newRestrictedAddress := by
  obtain ⟨_, _, hr⟩ := cache.exists_noteRootQualifier (type = .addQualifier) assetName address
  simp only [CAssetsCache.addQualifierAddress, hr]

theorem toRemove_addNullOut {txout : CTxOut}
    (h : cache.newRestrictedAddress.toRemove[key]? = none) :
    (addNullOut env cache txout).newRestrictedAddress.toRemove[key]? = none := by
  unfold addNullOut
  dsimp only
  split
  · split
    · dsimp only [CAssetsCache.addRestrictedAddress, DirtyPair.putAdd]
      rw [TreeMap.getElem?_erase]
      split
      · rfl
      · exact h
    · rwa [freezes_addQualifierAddress]
    · rwa [freezes_addQualifierAddress]
    · exact h
  · split
    · exact h
    · exact h

theorem toRemove_foldl_addOutAssets {outs : List (COutPoint × CTxOut)}
    (h : cache.newRestrictedAddress.toRemove[key]? = none) :
    (outs.foldl (fun cache (out, txout) => addOutAssets env g cache out txout)
      cache).newRestrictedAddress.toRemove[key]? = none := by
  induction outs generalizing cache with
  | nil => exact h
  | cons item outs ih =>
    refine ih ?_
    dsimp only [addOutAssets]
    split
    · refine toRemove_addNullOut ?_
      have hsa : (addTransferOut env g cache item.1 item.2).newRestrictedAddress =
          cache.newRestrictedAddress :=
        congrArg CommandMarks.freezes (commandMarks_of_core (core_addTransferOut item.1 item.2))
      rwa [hsa]
    · exact h

/-- A connected block marks no address restriction as removed. -/
theorem freezes_toRemove_connectTransactions {view : CCoinsViewCache} {vtx : List CTransaction}
    {conn : Connected}
    (h : connectTransactions rules env g mempool nHeight blockHash ⟨view, {}⟩ vtx = .ok conn) :
    conn.st.cache.newRestrictedAddress.toRemove[key]? = none := by
  refine connectTransactions_invariant
    (fun _ c => c.st.cache.newRestrictedAddress.toRemove[key]? = none) h (by simp) ?_
  intro pre tx post c c' _ hp hstep
  obtain ⟨nFees, st, txundo, undo, -, -, -, hu, rfl⟩ := connectTx_eq_ok.1 hstep
  obtain ⟨cache, update, hc, hclass, ho, -⟩ := exists_cache_of_updateCoins hu
  have hm : update.cache.commandMarks = c.st.cache.commandMarks := by
    rw [hclass, ← commandMarks_of_core hc]
    split
    · exact commandMarks_addClassAssets nHeight blockHash
    · rfl
  have hsa : update.cache.newRestrictedAddress = c.st.cache.newRestrictedAddress :=
    congrArg CommandMarks.freezes hm
  dsimp only
  rw [ho]
  refine toRemove_foldl_addOutAssets ?_
  rw [hsa]
  exact hp

/-- An address that a block freezes is among the restrictions it adds. -/
theorem freezeAddress_of_frozen_flush {name address : Str} (hb : g.frozen name address = false)
    (hr : cache.newRestrictedAddress.toRemove[(name, address)]? = none)
    (ha : (g.flush cache).frozen name address = true) :
    cache.newRestrictedAddress.toAdd[(name, address)]? = some .freezeAddress := by
  rw [frozen_flush, hb] at ha
  simp only [CommandKind.flag, freezeKind, DirtyPair.Marks.flag, DirtyPair.Marks.value,
    DirtyPair.marks, CAssetsCache.commandMarks, hr, freezeType, if_true] at ha
  cases had : cache.newRestrictedAddress.toAdd[(name, address)]? with
  | none => simp [had] at ha
  | some type =>
    rw [had] at ha
    exact congrArg some (of_decide_eq_true ha)

end Marks

namespace CTxMemPool

section Reissues

variable {pool q q' : CTxMemPool} {name : Str}

/-- The reissues that a pool remembers are among those of another one. -/
def ForgetsReissues (q pool : CTxMemPool) : Prop :=
  ∀ name : Str, q.mapReissuedAssets[name]? = none ∨
    q.mapReissuedAssets[name]? = pool.mapReissuedAssets[name]?

theorem ForgetsReissues.refl (pool : CTxMemPool) : pool.ForgetsReissues pool := fun _ => Or.inr rfl

theorem ForgetsReissues.trans (h : q'.ForgetsReissues q) (h' : q.ForgetsReissues pool) :
    q'.ForgetsReissues pool := by
  intro name
  rcases h name with hn | heq
  · exact Or.inl hn
  · rw [heq]
    exact h' name

theorem keptByRemoval_forgetsReissues (pool : CTxMemPool) :
    KeptByRemoval fun q => q.ForgetsReissues pool where
  links _ _ h := h
  entry q hash tx _ h := by
    have hu : ((q.eraseEntry hash tx).unlockReissue hash).ForgetsReissues q := by
      unfold unlockReissue
      split
      · exact .refl q
      next other _ =>
        split
        · intro name
          dsimp only
          rw [TreeMap.getElem?_erase]
          split
          · exact Or.inl rfl
          · exact Or.inr rfl
        · exact .refl q
    refine ForgetsReissues.trans (ForgetsReissues.trans ?_ hu) h
    unfold eraseRestricted eraseAssetName
    split <;> exact .refl _

theorem forgetsReissues_removeForBlock {env : Env} {g : AssetGlobals} {tip : TreeMap COutPoint Coin}
    (pool : CTxMemPool) (vtx : List CTransaction) (data : ConnectedBlockAssetData) :
    (pool.removeForBlock env g tip vtx data).ForgetsReissues pool :=
  (keptByRemoval_forgetsReissues pool).removeForBlock (.refl pool) vtx data

/-- Forgotten reissues conflict with nothing. -/
theorem ForgetsReissues.outConflict (h : q.ForgetsReissues pool) {env : Env} {tx : CTransaction}
    (hf : tx.vout.any (outConflict env pool.toMempoolAssets tx.hash) = false) :
    tx.vout.any (outConflict env q.toMempoolAssets tx.hash) = false := by
  rw [List.any_eq_false] at hf ⊢
  intro out hout
  have ho := hf out hout
  unfold Cmusic.outConflict at ho ⊢
  cases hname : reissuedBy env out with
  | none => simp
  | some name =>
    rw [hname] at ho
    rcases h name with hn | heq
    · simp [hn]
    · simpa [heq] using ho

end Reissues

section Valid

variable {rules : BlockRules} {env : Env} {g : AssetGlobals} {mempool : MempoolAssets}
  {node : NodeState} {nHeight : Nat} {base : TreeMap COutPoint Coin} {block : CBlock}
  {conn : Connected} {pool : CTxMemPool}

/-- Every transaction of the pool passes `CheckTxAssets`, over the coins of the chain and the pool. -/
def AssetsChecked (env : Env) (g : AssetGlobals) (base : TreeMap COutPoint Coin) (pool : CTxMemPool) : Prop :=
  ∀ (hash : UInt256) (tx : CTransaction), pool.mapTx[hash]? = some tx →
    ∃ r, checkTxAssets env g g.passets tx (pool.inputView { base } tx) pool.toMempoolAssets false =
      .ok r

theorem assetsChecked_iff : pool.AssetsChecked env g base ↔ ∀ row ∈ pool.mapTx.toList,
    (checkTxAssets env g g.passets row.2 (pool.inputView { base } row.2) pool.toMempoolAssets
      false).isOk = true := by
  simp only [AssetsChecked, isOk_iff, Prod.forall, TreeMap.mem_toList_iff_getElem?_eq_some]

/-- Every transaction of the pool whose inputs are on the chain passes `CheckTxAssets` there. -/
def AssetsCheckedOnChain (env : Env) (g : AssetGlobals) (base : TreeMap COutPoint Coin)
    (pool : CTxMemPool) : Prop :=
  ∀ (hash : UInt256) (tx : CTransaction), pool.mapTx[hash]? = some tx →
    (∀ txin ∈ tx.vin, (CCoinsViewCache.getCoin { base } txin.prevout).isSome) →
      ∃ r, checkTxAssets env g g.passets tx { base } pool.toMempoolAssets false = .ok r

/-- The rules that nothing has looked at again: those for the outputs, and the freezes of addresses
that the pool has not filed the transaction under. -/
structure UncheckedRulesHold (env : Env) (g : AssetGlobals) (base : TreeMap COutPoint Coin)
    (pool : CTxMemPool) (tx : CTransaction) : Prop where
  outputs : RulesHold env g tx
  unfiled : ∀ txin ∈ tx.vin, ∀ coin data,
    CCoinsViewCache.getCoin { base } txin.prevout = some coin →
      getAssetData env coin.out.scriptPubKey = some data →
        isAssetNameAnRestricted data.assetName = true →
          tx.hash ∉ pool.addressesMarkedFrozen.itemsOf (data.address, data.assetName) →
            g.frozen data.assetName data.address = false

section Entry

variable {hash : UInt256} {tx : CTransaction}

/-- The coins of the inputs of an entry, before a block and after it. -/
theorem coins_of_connectBlock (h : pool.BesideBlock base block.vtx)
    (hg : block.header.getHash rules.params ≠ rules.params.hashGenesisBlock)
    (hco : connectBlock rules env g mempool node nHeight { view := { base }, cache := {} } block =
      .ok conn) (hge : pool.mapTx[hash]? = some tx)
    (hb : ∃ r, checkTxAssets env g g.passets tx (pool.inputView { base } tx) {} false = .ok r)
    (hi : ∀ txin ∈ tx.vin,
      (CCoinsViewCache.getCoin { base := conn.st.view.flush } txin.prevout).isSome) :
    ∀ txin ∈ tx.vin, ∃ coin coin', (pool.inputView { base } tx).getCoin txin.prevout = some coin ∧
      CCoinsViewCache.getCoin { base := conn.st.view.flush } txin.prevout = some coin' ∧
      coin'.out = coin.out := by
  intro txin ht
  obtain ⟨hh, -⟩ := checkTxAssets_parts.1 hb
  rw [CCoinsViewCache.haveInputs, h.noCoinBase _ _ hge, Bool.false_or, List.all_eq_true] at hh
  obtain ⟨coin, hc⟩ := Option.isSome_iff_exists.1 (hh txin ht)
  obtain ⟨coin', hc'⟩ := Option.isSome_iff_exists.1 (hi txin ht)
  refine ⟨coin, coin', hc, hc', out_eq_of_connectBlock h hg hco ?_ hc'⟩
  rw [getCoin_inputView (List.mem_map_of_mem ht)] at hc
  exact (Option.filter_eq_some_iff.1 hc).1

/-- An entry that the pool has filed under an address stays only if the block did not freeze it: the
freeze is among the restrictions of the block, and the entry fails the check that follows. -/
theorem Stays.not_frozen_of_filed
    (hr : ∀ key : Str × Str, conn.st.cache.newRestrictedAddress.toRemove[key]? = none)
    (hg : pool.mapTx[hash]? = some tx)
    (hst : pool.Stays env (g.flush conn.st.cache) conn.st.view.flush block.vtx
      conn.st.cache.connectedBlockAssetData hash) {txin : CTxIn} (ht : txin ∈ tx.vin) {coin : Coin}
    {data : CAssetOutputEntry}
    (hco : CCoinsViewCache.getCoin { base := conn.st.view.flush } txin.prevout = some coin)
    (hd : getAssetData env coin.out.scriptPubKey = some data)
    (hname : isAssetNameAnRestricted data.assetName = true)
    (hb : g.frozen data.assetName data.address = false)
    (hfi : hash ∈ pool.addressesMarkedFrozen.itemsOf (data.address, data.assetName)) :
    (g.flush conn.st.cache).frozen data.assetName data.address = false := by
  by_contra hf
  rw [Bool.not_eq_false] at hf
  refine hst.notDisplaced (.frozenAddress data.assetName data.address
    (freezeAddress_of_frozen_flush hb (hr _) hf) hfi ⟨tx, hg, ?_⟩)
  cases hc : checkTxAssets env (g.flush conn.st.cache) (g.flush conn.st.cache).passets tx
      { base := conn.st.view.flush } pool.toMempoolAssets false with
  | error e => simp [failsCheckTxAssets, hc, Except.isOk, Except.toBool]
  | ok r =>
    rw [not_frozen_of_checkTxAssets hc ht hco hd hname] at hf
    cases hf

end Entry

/-- After `removeForBlock` the pool is valid on the chain exactly when the rules that it does not
look at again hold for what it leaves. -/
theorem removeForBlock_assetsCheckedOnChain (h : pool.BesideBlock base block.vtx)
    (hgenesis : block.header.getHash rules.params ≠ rules.params.hashGenesisBlock)
    (hconn : connectBlock rules env g mempool node nHeight { view := { base }, cache := {} } block =
      .ok conn) (hchecked : pool.AssetsChecked env g base) :
    (pool.removeForBlock env (g.flush conn.st.cache) conn.st.view.flush block.vtx
        conn.st.cache.connectedBlockAssetData).AssetsCheckedOnChain env (g.flush conn.st.cache)
          conn.st.view.flush ↔
      ∀ (hash : UInt256) (tx : CTransaction), pool.mapTx[hash]? = some tx →
        pool.Stays env (g.flush conn.st.cache) conn.st.view.flush block.vtx
          conn.st.cache.connectedBlockAssetData hash →
        (∀ txin ∈ tx.vin,
          (CCoinsViewCache.getCoin { base := conn.st.view.flush } txin.prevout).isSome) →
        pool.UncheckedRulesHold env (g.flush conn.st.cache) conn.st.view.flush tx := by
  have hco := h.confirms hgenesis hconn
  have hre : ∀ key : Str × Str, conn.st.cache.newRestrictedAddress.toRemove[key]? = none := by
    obtain ⟨_, -, hlo⟩ := bind_eq_ok.1 hconn
    simp only [if_neg hgenesis] at hlo
    exact fun key => freezes_toRemove_connectTransactions hlo
  obtain ⟨hw, hsta⟩ := @Confirms.removeForBlock env (g.flush conn.st.cache) pool
    block.vtx conn.st.view.flush conn.st.cache.connectedBlockAssetData hco
  have hfo := @forgetsReissues_removeForBlock env (g.flush conn.st.cache) conn.st.view.flush pool
    block.vtx conn.st.cache.connectedBlockAssetData
  -- the check of an entry after the block, in terms of the freezes and the rules for its outputs
  have ha : ∀ (hash : UInt256) (tx : CTransaction), pool.mapTx[hash]? = some tx → (∀ txin ∈ tx.vin,
        (CCoinsViewCache.getCoin { base := conn.st.view.flush } txin.prevout).isSome) →
      ((∃ r, checkTxAssets env (g.flush conn.st.cache) (g.flush conn.st.cache).passets tx
          { base := conn.st.view.flush } (pool.removeForBlock env (g.flush conn.st.cache)
            conn.st.view.flush block.vtx conn.st.cache.connectedBlockAssetData).toMempoolAssets
          false = .ok r) ↔
        NotFrozen env (g.flush conn.st.cache) { base := conn.st.view.flush } tx.vin ∧
          RulesHold env (g.flush conn.st.cache) tx) := by
    intro hash tx hg hi
    obtain ⟨hfre, hb⟩ := checkTxAssets_iff.1 (hchecked hash tx hg)
    rw [checkTxAssets_iff, and_iff_right (hfo.outConflict hfre)]
    exact checkTxAssets_again (h.noCoinBase _ _ hg) hb
      (coins_of_connectBlock h hgenesis hconn hg hb hi)
  constructor
  · intro hvalid hash tx hg hst hi
    have hl := (hw.getElem? ((hsta hash).2 hst)).trans hg
    obtain ⟨hfr, hru⟩ := (ha hash tx hg hi).1 (hvalid hash tx hl hi)
    exact ⟨hru, fun txin ht coin data hc hd hname _ =>
      hfr txin ht coin data hc hd hname⟩
  · intro hru hash tx hl hi
    have hg := hw.entry hash tx hl
    have hst := (hsta hash).1 (mem_of_getElem? hl)
    obtain ⟨ho, hu⟩ := hru hash tx hg hst hi
    refine (ha hash tx hg hi).2 ⟨?_, ho⟩
    intro txin ht coin' data hc' hd hname
    by_cases hf : tx.hash ∈ pool.addressesMarkedFrozen.itemsOf (data.address, data.assetName)
    · rw [h.linked.hashes hash tx hg] at hf
      obtain ⟨-, hb⟩ := checkTxAssets_iff.1 (hchecked hash tx hg)
      obtain ⟨coin, _, hc, heq, hout⟩ :=
        coins_of_connectBlock h hgenesis hconn hg hb hi txin ht
      cases hc'.symm.trans heq
      obtain ⟨r, hr⟩ := hb
      refine hst.not_frozen_of_filed hre hg ht hc' hd hname ?_ hf
      exact not_frozen_of_checkTxAssets hr ht hc (hout ▸ hd) hname
    · exact hu txin ht coin' data hc' hd hname hf

end Valid

end CTxMemPool

/-- The restricted asset of the samples, with the tokens spent from the sample address. -/
def heldGlobals : AssetGlobals :=
  { restrictedGlobals with
    db := { restrictedGlobals.db with assetAddressQuantity := fun _ => some coin } }

def heldBase : TreeMap COutPoint Coin := restrictedBase.insert ownerOutPoint ⟨sampleOwner, 1, false⟩

def connectHeld (base : TreeMap COutPoint Coin) (block : CBlock) : Checked Connected :=
  connectBlock sampleRules sampleEnv heldGlobals {} sampleNode 10
    { view := { base }, cache := {} } block

/-- A block in which the owner freezes the sample address. -/
def freezeAddressBlock : CBlock where
  header := sampleHeader
  vtx := [sampleCoinbase,
    { freezeTx 31 ownerOutPoint with vout := [sampleOwner, sampleCommand "$MUSIC" 1] }]

def sampleAddress : Str := scriptAddress sampleEnv sampleScript

/-- A coin beside the tokens. -/
def paidBase : TreeMap COutPoint Coin := heldBase.insert ⟨8, 0⟩ ⟨⟨coin, sampleScript⟩, 1, false⟩

def samplePayment : CTransaction := payTx 10 ⟨8, 0⟩ coin

def movedPool : CTxMemPool := ({} : CTxMemPool).addUnchecked restrictedTx

def movedPaidPool : CTxMemPool := movedPool.addUnchecked samplePayment

/-- A pool with a payment and with a transfer of the restricted asset, which is filed under the address
it spends from. -/
def filedPool : CTxMemPool :=
  { movedPaidPool with
    addressesMarkedFrozen := TwoWayIndex.file {} (sampleAddress, str "$MUSIC") 9 }

theorem besideBlock_filedPool : filedPool.BesideBlock paidBase freezeAddressBlock.vtx := by
  have ht : CTxMemPool.Addable {} restrictedTx := addable_of_list (by decide +kernel)
  have hp : movedPool.Addable samplePayment := addable_of_list (by decide +kernel)
  have hl : movedPaidPool.Linked := (linked_empty.addUnchecked ht).addUnchecked hp
  exact besideBlock_of_lists ⟨hl.hashes, hl.nextTx, hl.parents, hl.children⟩ (by decide +kernel)
    (newIds_of_keys (by decide +kernel) (by decide +kernel)) (by decide +kernel)

/-- The transfer from the frozen address is found and taken out, and the payment stays. -/
theorem removeForBlock_assetsCheckedOnChain_filedPool :
    ∃ conn, connectHeld paidBase freezeAddressBlock = .ok conn ∧
      (filedPool.removeForBlock sampleEnv (heldGlobals.flush conn.st.cache) conn.st.view.flush
        freezeAddressBlock.vtx conn.st.cache.connectedBlockAssetData).mapTx.keys = [10] ∧
      (filedPool.removeForBlock sampleEnv (heldGlobals.flush conn.st.cache) conn.st.view.flush
        freezeAddressBlock.vtx conn.st.cache.connectedBlockAssetData).AssetsCheckedOnChain sampleEnv
          (heldGlobals.flush conn.st.cache) conn.st.view.flush := by
  have hr : (connectHeld paidBase freezeAddressBlock).toOption.any (fun conn =>
      decide ((filedPool.removeForBlock sampleEnv (heldGlobals.flush conn.st.cache)
        conn.st.view.flush freezeAddressBlock.vtx conn.st.cache.connectedBlockAssetData).mapTx.keys =
          [10]) &&
      (CCoinsViewCache.getCoin { base := conn.st.view.flush } ⟨8, 0⟩).all (fun coin =>
        (getAssetData sampleEnv coin.out.scriptPubKey).isNone) &&
      decide (conn.st.cache.newRestrictedAddress.toAdd[(str "$MUSIC", sampleAddress)]? =
        some .freezeAddress) &&
      filedPool.failsCheckTxAssets sampleEnv (heldGlobals.flush conn.st.cache) conn.st.view.flush
        restrictedTx) = true := by decide +kernel
  have hch : filedPool.AssetsChecked sampleEnv heldGlobals paidBase :=
    assetsChecked_iff.2 (by decide +kernel)
  have ho : ∀ row ∈ filedPool.mapTx.toList, row = (9, restrictedTx) ∨ row = (10, samplePayment) := by
    decide +kernel
  have hg : filedPool.mapTx[(9 : UInt256)]? = some restrictedTx := by decide +kernel
  have hf : (9 : UInt256) ∈ filedPool.addressesMarkedFrozen.itemsOf
    (sampleAddress, str "$MUSIC") := by decide +kernel
  obtain ⟨conn, hc, hr⟩ := exists_of_any_toOption hr
  simp only [Bool.and_eq_true, decide_eq_true_eq] at hr
  obtain ⟨⟨⟨hk, hcoin⟩, hfreeze⟩, hfails⟩ := hr
  refine ⟨conn, hc, hk, (removeForBlock_assetsCheckedOnChain besideBlock_filedPool
    (by decide +kernel) hc hch).2 ?_⟩
  intro hash tx htx hst _
  rcases ho (hash, tx) (TreeMap.mem_toList_iff_getElem?_eq_some.2 htx) with heq | heq
  · cases heq
    exact (hst.notDisplaced (.frozenAddress (str "$MUSIC") sampleAddress hfreeze hf
      ⟨restrictedTx, hg, hfails⟩)).elim
  · cases heq
    -- the payment moves no asset
    have hno : ∀ out ∈ samplePayment.vout, ∀ p,
        transferAssetFromScript sampleEnv out.scriptPubKey ≠ some p := by
      intro out hout p
      obtain rfl := List.mem_singleton.1 hout
      nofun
    refine ⟨⟨fun out hout _ _ hs => (hno out hout _ hs).elim,
      fun out hout _ _ hs => (hno out hout _ hs).elim, ?_, rfl⟩, ?_⟩
    · intro out hout
      obtain rfl := List.mem_singleton.1 hout
      rfl
    · intro txin hin coin data hco hd
      obtain rfl := List.mem_singleton.1 hin
      rw [hco] at hcoin
      simp [hd] at hcoin

/-- A block in which the owner freezes the asset for everybody. -/
def freezeAssetBlock : CBlock := ⟨sampleHeader, [sampleCoinbase, freezeTx 31 ownerOutPoint]⟩

/-- The pool that has accepted a transfer of the restricted asset. -/
def transferPool : CTxMemPool :=
  (acceptToMemoryPoolWorker openPolicy sampleEnv heldGlobals { base := heldBase } 10 false false {}
    restrictedTx).1

/-- The transfer is found, but the check it has to pass again does not look at the freeze. -/
theorem removeForBlock_leaves_frozen : transferPool.AssetsChecked sampleEnv heldGlobals heldBase ∧
      ∃ conn, connectHeld heldBase freezeAssetBlock = .ok conn ∧
      ¬ (transferPool.removeForBlock sampleEnv (heldGlobals.flush conn.st.cache) conn.st.view.flush
        freezeAssetBlock.vtx conn.st.cache.connectedBlockAssetData).AssetsCheckedOnChain sampleEnv
          (heldGlobals.flush conn.st.cache) conn.st.view.flush := by
  have hru : (connectHeld heldBase freezeAssetBlock).toOption.any (fun conn =>
      let pool := transferPool.removeForBlock sampleEnv (heldGlobals.flush conn.st.cache)
        conn.st.view.flush freezeAssetBlock.vtx conn.st.cache.connectedBlockAssetData
      decide (pool.mapTx[(9 : UInt256)]? = some restrictedTx) &&
      (restrictedTx.vin.all fun txin =>
        (CCoinsViewCache.getCoin { base := conn.st.view.flush } txin.prevout).isSome) &&
      pool.failsCheckTxAssets sampleEnv (heldGlobals.flush conn.st.cache) conn.st.view.flush
        restrictedTx) = true := by decide +kernel
  refine ⟨assetsChecked_iff.2 (by decide +kernel), ?_⟩
  obtain ⟨conn, hc, hru⟩ := exists_of_any_toOption hru
  simp only [Bool.and_eq_true, decide_eq_true_eq, List.all_eq_true] at hru
  obtain ⟨⟨hg, hi⟩, hfails⟩ := hru
  refine ⟨conn, hc, fun hvalid => ?_⟩
  obtain ⟨r, hr⟩ := hvalid 9 restrictedTx hg hi
  simp [failsCheckTxAssets, hr, Except.isOk, Except.toBool] at hfails

end Cmusic
