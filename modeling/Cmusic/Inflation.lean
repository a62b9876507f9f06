import Cmusic.Conservation
import Cmusic.HeaderAdmission
import Cmusic.Utxo

/-! How much the value of all unspent outputs grows with a block. -/
namespace Cmusic

open Fallible Std CScript CCoinsViewCache

section Amounts

variable {a b : CAmount}

theorem moneyRange_iff : moneyRange a = true ↔ 0 ≤ a.toInt ∧ a.toInt ≤ 17500000000000000 := by
  have hm : maxMoney.toInt = 17500000000000000 := by decide
  rw [moneyRange, Bool.and_eq_true, decide_eq_true_eq, decide_eq_true_eq, Int64.le_iff_toInt_le,
    Int64.le_iff_toInt_le, hm]
  rfl

/-- Sums of amounts in range do not wrap. -/
theorem toInt_add_of_moneyRange (ha : moneyRange a = true) (hb : moneyRange b = true) :
    (a + b).toInt = a.toInt + b.toInt := by
  rw [moneyRange_iff] at ha hb
  rw [Int64.toInt_add]
  exact Int.bmod_eq_of_le (by omega) (by omega)

theorem toInt_sub_of_moneyRange (ha : moneyRange a = true) (hb : moneyRange b = true) :
    (a - b).toInt = a.toInt - b.toInt := by
  rw [moneyRange_iff] at ha hb
  rw [Int64.toInt_sub]
  exact Int.bmod_eq_of_le (by omega) (by omega)

theorem moneyRange_zero : moneyRange 0 = true := by decide

theorem moneyRange_getBlockSubsidy (nHeight : Nat) : moneyRange (getBlockSubsidy nHeight) = true := by
  unfold getBlockSubsidy
  repeat' split
  all_goals decide

end Amounts

/-- The exact value of some outputs. -/
def outputValue (vout : List CTxOut) : ℤ := (vout.map fun out => out.nValue.toInt).sum

/-- The value of the outputs that reissue an asset. -/
def reissueValue (tx : CTransaction) : ℤ :=
  outputValue (tx.vout.filter fun out => CScript.isReissueAsset out.scriptPubKey)

/-- What `GetValueOut` does not count. -/
def uncounted (fAreEnforcedValues : Bool) (out : CTxOut) : Bool :=
  !fAreEnforcedValues && (CScript.isAssetScript out.scriptPubKey).isSome

variable {tx : CTransaction} {value : CAmount}

theorem getValueOut_exact {enforced : Bool} (h : tx.getValueOut enforced = some value) :
    moneyRange value = true ∧
      value.toInt = outputValue (tx.vout.filter fun out => !uncounted enforced out) := by
  refine foldlM_some_invariant (fun pre (value : CAmount) => moneyRange value = true ∧
    value.toInt = outputValue (pre.filter fun out => !uncounted enforced out)) h
    ⟨moneyRange_zero, rfl⟩ ?_
  intro pre out c c' hi hstep
  rw [addValueOut] at hstep
  split at hstep
  next hsk =>
    cases hstep
    have hout : uncounted enforced out = true := hsk
    simpa [List.filter_append, hout] using hi
  next hsk =>
    have hout : uncounted enforced out = false := Bool.eq_false_iff.2 hsk
    split at hstep
    · cases hstep
    next hr =>
      cases hstep
      simp only [Bool.or_eq_true, Bool.not_eq_true', not_or, Bool.not_eq_false] at hr
      refine ⟨hr.2, ?_⟩
      rw [toInt_add_of_moneyRange hi.1 hr.1, hi.2, List.filter_append]
      simp [outputValue, hout]

variable {script : CScript}

/-- A reissue script never counts as an owner script. -/
theorem isReissueAsset_of_nType {asset : CScript.AssetScript}
    (h : isAssetScript script = some asset) (ht : asset.nType = .reissueAsset) :
    isReissueAsset script = true := by
  have ho : asset.fIsOwner = false := by
    unfold isAssetScript at h
    split at h
    · split at h
      · cases h
      · repeat' split at h
        all_goals cases h
        all_goals first | rfl | cases ht
    · cases h
  simp [isReissueAsset, isScriptReissueAsset, assetScriptOf, h, ht, ho]

variable {env : Env} {scan scan' : TxOutScan} {out : CTxOut} {vout : List CTxOut}
  {view : CCoinsViewCache} {nSpendHeight : Nat}

/-- What the checks of a block say about the value of an output. -/
structure CheckedValue (out : CTxOut) : Prop where
  nonneg : 0 ≤ out.nValue.toInt
  /-- Only a reissue carries value next to an asset. -/
  asset : (CScript.isAssetScript out.scriptPubKey).isSome = true →
    CScript.isReissueAsset out.scriptPubKey = false → out.nValue = 0

theorem checkedValue_of_scanAsset (hn : 0 ≤ out.nValue.toInt)
    (h : scanAsset env false true scan out = .ok scan') : CheckedValue out := by
  refine ⟨hn, fun ha hreissue => ?_⟩
  obtain ⟨asset, hsc⟩ := Option.isSome_iff_exists.1 ha
  simp only [scanAsset, hsc] at h
  split at h
  · split at h
    · cases h
    · obtain ⟨_, hc, -⟩ := bind_eq_ok.1 h
      unfold checkTransferOut at hc
      split at hc
      · cases hc
      · simp only [rejectIf, failIf_bind_eq_ok, failIf_eq_ok] at hc
        simpa using hc.2.2.2
  · simp only [rejectIf, failIf_bind_eq_ok] at h
    simpa using h.1
  next ht =>
    rw [isReissueAsset_of_nType hsc ht] at hreissue
    cases hreissue
  · cases h

theorem nonneg_of_checkTransaction {fCheckDuplicateInputs fMempoolCheck fBlockCheck : Bool}
    (h : checkTransaction env tx fCheckDuplicateInputs fMempoolCheck fBlockCheck = .ok ()) :
    ∀ out ∈ tx.vout, 0 ≤ out.nValue.toInt ∧
      ∃ scan scan', scanTxOut env fMempoolCheck fBlockCheck scan out = .ok scan' := by
  intro out hout
  simp only [checkTransaction, rejectIf, failIf_bind_eq_ok] at h
  obtain ⟨-, -, -, h⟩ := h
  obtain ⟨_, hsc, -⟩ := bind_eq_ok.1 h
  obtain ⟨scan, scan', hstep⟩ := step_ok_of_foldlM hsc out hout
  refine ⟨?_, scan, scan', hstep⟩
  simp only [scanTxOut, rejectIf, failIf_bind_eq_ok] at hstep
  have hn := hstep.1
  rw [decide_eq_false_iff_not, Int64.lt_iff_toInt_lt] at hn
  simpa using hn

theorem checkedValue_of_checkTransaction (h : checkTransaction env tx true false true = .ok ()) :
    ∀ out ∈ tx.vout, CheckedValue out := by
  intro out hout
  obtain ⟨hn, scan, scan', hstep⟩ := nonneg_of_checkTransaction h out hout
  simp only [scanTxOut, rejectIf, failIf_bind_eq_ok] at hstep
  obtain ⟨-, -, -, hstep⟩ := hstep
  obtain ⟨_, -, ha⟩ := bind_eq_ok.1 hstep
  exact checkedValue_of_scanAsset hn ha

theorem nodup_of_checkTransaction (h : checkTransaction env tx true false true = .ok ()) :
    (tx.vin.map CTxIn.prevout).Nodup := by
  simp only [checkTransaction, rejectIf, bind_eq_ok, checkTxInShape] at h
  obtain ⟨_, -, _, -, _, -, _, -, _, -, _, -, _, ⟨_, hd, -⟩, -⟩ := h
  simpa using hd

/-- The value a transaction creates beyond what `GetValueOut` counts. -/
def hiddenValue (env : Env) (tx : CTransaction) : ℤ :=
  if env.areEnforcedValuesDeployed then 0 else reissueValue tx

theorem outputValue_nonneg (h : ∀ out ∈ vout, 0 ≤ out.nValue.toInt) : 0 ≤ outputValue vout := by
  refine List.sum_nonneg fun value hv => ?_
  obtain ⟨out, hout, rfl⟩ := List.mem_map.1 hv
  exact h out hout

theorem outputValue_cons (out : CTxOut) (vout : List CTxOut) :
    outputValue (out :: vout) = out.nValue.toInt + outputValue vout := by
  simp [outputValue]

theorem isAssetScript_of_isReissueAsset (h : isReissueAsset script = true) :
    (isAssetScript script).isSome = true := by
  cases hsc : isAssetScript script with
  | some asset => rfl
  | none =>
    simp [isReissueAsset, isScriptReissueAsset, assetScriptOf, hsc] at h

/-- An output is counted, or is a reissue, or has no value. -/
theorem outputValue_split (h : ∀ out ∈ vout, CheckedValue out) :
    outputValue vout = outputValue (vout.filter fun out => !uncounted false out) +
      outputValue (vout.filter fun out => isReissueAsset out.scriptPubKey) := by
  induction vout with
  | nil => rfl
  | cons out vout ih =>
    have hr := ih fun out hout => h out (List.mem_cons_of_mem _ hout)
    have hout := h out List.mem_cons_self
    rw [outputValue_cons, hr]
    cases hreissue : isReissueAsset out.scriptPubKey with
    | true =>
      have ha := isAssetScript_of_isReissueAsset hreissue
      simp only [uncounted, Bool.not_false, Bool.true_and, List.filter_cons, ha, hreissue,
        Bool.not_true, Bool.false_eq_true, if_false, if_true, outputValue_cons]
      omega
    | false =>
      cases ha : (isAssetScript out.scriptPubKey).isSome with
      | true =>
        have hz : out.nValue.toInt = 0 := by
          rw [hout.asset ha hreissue]
          rfl
        simp only [uncounted, Bool.not_false, Bool.true_and, List.filter_cons, ha, hreissue,
          Bool.not_true, Bool.false_eq_true, if_false]
        omega
      | false =>
        simp only [uncounted, Bool.not_false, Bool.true_and, List.filter_cons, ha, hreissue,
          Bool.false_eq_true, if_false, if_true, outputValue_cons]
        omega

theorem outputValue_eq (h : ∀ out ∈ tx.vout, CheckedValue out) : outputValue tx.vout =
      outputValue (tx.vout.filter fun out => !uncounted env.areEnforcedValuesDeployed out) +
        hiddenValue env tx := by
  unfold hiddenValue reissueValue
  cases env.areEnforcedValuesDeployed with
  | true => simp [uncounted]
  | false => simpa using outputValue_split h

/-- The exact value of the coins that the inputs name. -/
def inputValue (view : CCoinsViewCache) (vin : List CTxIn) : ℤ :=
  (vin.map fun txin => (view.accessCoin txin.prevout).out.nValue.toInt).sum

theorem addValueIn_exact {vin : List CTxIn}
    (h : vin.foldlM (addValueIn view nSpendHeight) 0 = .ok value) :
    moneyRange value = true ∧ value.toInt = inputValue view vin := by
  refine foldlM_invariant (fun pre (value : CAmount) => moneyRange value = true ∧
    value.toInt = inputValue view pre) h ⟨moneyRange_zero, rfl⟩ ?_
  intro pre txin c c' hi hstep
  simp only [addValueIn, rejectIf, failIf_bind_eq_ok, pure_eq_ok, Bool.or_eq_false_iff,
    Bool.not_eq_false'] at hstep
  obtain ⟨-, ⟨hc, hsu⟩, rfl⟩ := hstep
  refine ⟨hsu, ?_⟩
  rw [toInt_add_of_moneyRange hi.1 hc, hi.2]
  simp [inputValue]

/-- The fee is what the inputs are worth beyond the counted outputs. -/
theorem checkTxInputs_exact {txfee : CAmount} (hcb : tx.isCoinBase = false)
    (h : checkTxInputs env tx view nSpendHeight = .ok txfee) :
    (∀ txin ∈ tx.vin, view.haveCoin txin.prevout = true) ∧ moneyRange txfee = true ∧
      txfee.toInt = inputValue view tx.vin -
        outputValue (tx.vout.filter fun out => !uncounted env.areEnforcedValuesDeployed out) := by
  simp only [checkTxInputs, rejectIf, failIf_bind_eq_ok] at h
  obtain ⟨hh, h⟩ := h
  obtain ⟨valueIn, hin, h⟩ := bind_eq_ok.1 h
  obtain ⟨valueOut, hout, h⟩ := bind_eq_ok.1 h
  simp only [failIf_bind_eq_ok, pure_eq_ok] at h
  obtain ⟨-, hf, rfl⟩ := h
  obtain ⟨hi, hinV⟩ := addValueIn_exact hin
  obtain ⟨ho, hou⟩ := getValueOut_exact (orAbort_eq_ok.1 hout)
  refine ⟨?_, by simpa using hf, ?_⟩
  · simpa [haveInputs, hcb] using hh
  · rw [toInt_sub_of_moneyRange hi ho, hinV, hou]

section Coins

variable {g : AssetGlobals} {st st' : CoinState} {outpoint : COutPoint} {coin : Coin}
  {nHeight : Nat} {tx : CTransaction} {blockHash : UInt256} {undo : Option (Str × CBlockAssetUndo)}
  {txundo : CTxUndo}

theorem accessCoin_amount {view : CCoinsViewCache} (h : view.getCoin outpoint = some coin) :
    (view.accessCoin outpoint).out.nValue.toInt = coin.amount := by
  obtain ⟨-, hu⟩ := Option.filter_eq_some_iff.1 h
  simp only [Bool.not_eq_true'] at hu
  simp [accessCoin, h, Coin.amount, hu]

/-- Spending the inputs takes exactly their value out of the view. -/
theorem spendInputs_total {vin : List CTxIn} (hn : (vin.map CTxIn.prevout).Nodup)
    (hh : ∀ txin ∈ vin, st.view.haveCoin txin.prevout = true) (h : st.view.Sound)
    (hsp : spendInputs env g st vin = some (st', txundo)) :
    st'.view.Sound ∧ st'.view.base = st.view.base ∧
      st'.view.total = st.view.total - inputValue st.view vin := by
  have hr := foldlM_some_invariant (fun _ (acc : CoinState × CTxUndo) => acc.1.view.Sound ∧
    acc.1.view.base = st.view.base ∧
    acc.1.view.total = st.view.total - (acc.2.map Coin.amount).sum) hsp ⟨h, rfl, by simp⟩ ?_
  · obtain ⟨hso, hb, ht⟩ := hr
    have hco := map_getCoin_of_spendInputs hn hh hsp
    have hv : (txundo.map Coin.amount).sum = inputValue st.view vin :=
      calc (txundo.map Coin.amount).sum
          = ((txundo.map some).map fun c => (c.map Coin.amount).getD 0).sum := by
            simp [Function.comp_def]
        _ = inputValue st.view vin := by
          rw [hco, List.map_nil, List.nil_append, List.map_map]
          refine congrArg List.sum (List.map_congr_left fun txin htx => ?_)
          obtain ⟨c, hc⟩ := Option.isSome_iff_exists.1 (hh txin htx)
          rw [accessCoin_amount hc, Function.comp_apply, hc]
          rfl
    exact ⟨hso, hb, hv ▸ ht⟩
  · rintro pre txin ⟨mid, undo⟩ acc' ⟨hso, hb, ht⟩ hstep
    dsimp only at hstep hso hb ht
    split at hstep
    next coin after hcoi =>
      cases hstep
      obtain ⟨hs', hb', ht'⟩ := hso.spendEntry (spendEntry_of_spendCoin hcoi)
      refine ⟨hs', hb'.trans hb, ?_⟩
      simp only [List.map_append, List.sum_append, List.map_singleton, List.sum_singleton]
      omega
    · cases hstep

/-- Adding the outputs of a transaction adds at most their value. -/
theorem addCoins_view_total {coins : List (COutPoint × CTxOut)} {fCoinBase : Bool}
    {view view' : CCoinsViewCache} (h : view.Sound) (hv : ∀ p ∈ coins, 0 ≤ p.2.nValue.toInt)
    (had : coins.foldlM (fun view (out, txout) =>
      view.addCoin out ⟨txout, nHeight, fCoinBase⟩ fCoinBase) view = some view') :
    view'.Sound ∧ view'.base = view.base ∧
      view'.total ≤ view.total + outputValue (coins.map Prod.snd) := by
  induction coins generalizing view with
  | nil =>
    cases had
    exact ⟨h, rfl, by simp [outputValue]⟩
  | cons p coins ih =>
    rw [List.foldlM_cons, Option.bind_eq_bind, Option.bind_eq_some_iff] at had
    obtain ⟨mid, hstep, hr⟩ := had
    have hp := hv p List.mem_cons_self
    have ha : Coin.amount ⟨p.2, nHeight, fCoinBase⟩ = p.2.nValue.toInt :=
      Coin.amount_of_nonneg hp
    have hm : mid.Sound ∧ mid.base = view.base ∧ mid.total ≤ view.total + p.2.nValue.toInt := by
      dsimp only at hstep
      unfold addCoin at hstep
      split at hstep
      · cases hstep
      · split at hstep
        · cases hstep
          exact ⟨h, rfl, by omega⟩
        · rw [← ha]
          exact h.addSpendable (by omega) hstep
    obtain ⟨hso, hb, ht⟩ := ih hm.1 (fun q hq => hv q (List.mem_cons_of_mem _ hq)) hr
    refine ⟨hso, hb.trans hm.2.1, ?_⟩
    rw [List.map_cons, outputValue_cons]
    omega

theorem addCoins_total (h : st.view.Sound) (hva : ∀ out ∈ tx.vout, CheckedValue out)
    (ha : addCoins env g st tx nHeight blockHash = some (st', undo)) :
    st'.view.Sound ∧ st'.view.base = st.view.base ∧
      st'.view.total ≤ st.view.total + outputValue tx.vout := by
  simp only [addCoins, Option.bind_eq_bind, Option.bind_eq_some_iff] at ha
  obtain ⟨view, hv, ha⟩ := ha
  cases ha
  have hc : ∀ p ∈ tx.outpoints, 0 ≤ p.2.nValue.toInt := by
    intro p hp
    refine (hva p.2 ?_).nonneg
    rw [← outpoints_map_snd tx]
    exact List.mem_map_of_mem hp
  have ht := addCoins_view_total h hc hv
  rwa [outpoints_map_snd] at ht

/-- What a transaction other than the coinbase does to the value of the view. -/
theorem updateCoins_total (hcb : tx.isCoinBase = false)
    (hc : checkTransaction env tx true false true = .ok ())
    (hh : ∀ txin ∈ tx.vin, st.view.haveCoin txin.prevout = true) (h : st.view.Sound)
    (hu : updateCoins env g st tx nHeight blockHash = some (st', txundo, undo)) :
    st'.view.Sound ∧ st'.view.base = st.view.base ∧
      st'.view.total ≤ st.view.total - inputValue st.view tx.vin + outputValue tx.vout := by
  obtain ⟨mid, hsp, ha⟩ := exists_of_updateCoins hu
  rw [hcb, if_neg (by decide)] at hsp
  obtain ⟨hso, hb, ht⟩ :=
    spendInputs_total (nodup_of_checkTransaction hc) hh h hsp
  obtain ⟨hs', hb', ht'⟩ :=
    addCoins_total hso (checkedValue_of_checkTransaction hc) ha
  refine ⟨hs', hb'.trans hb, ?_⟩
  omega

theorem updateCoins_coinbase_total (hcb : tx.isCoinBase = true)
    (hc : checkTransaction env tx true false true = .ok ()) (h : st.view.Sound)
    (hu : updateCoins env g st tx nHeight blockHash = some (st', txundo, undo)) :
    st'.view.Sound ∧ st'.view.base = st.view.base ∧
      st'.view.total ≤ st.view.total + outputValue tx.vout := by
  obtain ⟨mid, hsp, ha⟩ := exists_of_updateCoins hu
  rw [hcb, if_pos rfl] at hsp
  cases hsp
  exact addCoins_total h (checkedValue_of_checkTransaction hc) ha

end Coins

section Block

variable {rules : BlockRules} {g : AssetGlobals} {mempool : MempoolAssets} {nHeight : Nat}
  {blockHash : UInt256} {base : TreeMap COutPoint Coin} {conn conn' : Connected} {tx : CTransaction}
  {vtx : List CTransaction} {cache : CAssetsCache} {node : NodeState} {block : CBlock}

/-- The fees of the accepted transactions, and the value of the view with them. -/
structure Balanced (base : TreeMap COutPoint Coin) (bound : ℤ) (conn : Connected) : Prop where
  sound : conn.st.view.Sound
  base : conn.st.view.base = base
  fees : moneyRange conn.nFees = true
  value : conn.st.view.total + conn.nFees.toInt ≤ bound

/-- A transaction moves value into the fees and adds at most what is not counted. -/
theorem balanced_connectTx {bound : ℤ} {fUndo : Bool} (hcb : tx.isCoinBase = false)
    (hc : checkTransaction env tx true false true = .ok ()) (h : Balanced base bound conn)
    (hco : connectTx rules env g mempool nHeight blockHash fUndo conn tx = .ok conn') :
    Balanced base (bound + hiddenValue env tx) conn' := by
  obtain ⟨nFees, st, txundo, undo, hi, -, -, hu, rfl⟩ := connectTx_eq_ok.1 hco
  rw [hcb, if_neg (by decide)] at hi
  obtain ⟨txfee, hfee, hr, -, -, rfl⟩ := connectInputs_eq_ok.1 hi
  obtain ⟨hh, hf, hfe⟩ := checkTxInputs_exact hcb hfee
  obtain ⟨hso, hb, ht⟩ := updateCoins_total hcb hc hh h.sound hu
  have hout : outputValue tx.vout = _ + hiddenValue env tx :=
    outputValue_eq (checkedValue_of_checkTransaction hc)
  have hv := h.value
  refine ⟨hso, hb.trans h.base, hr, ?_⟩
  rw [toInt_add_of_moneyRange h.fees hf]
  dsimp only
  omega

/-- The loop over the transactions after the coinbase. -/
theorem balanced_foldlM {bound : ℤ} (hcb : ∀ tx ∈ vtx, tx.isCoinBase = false)
    (hch : ∀ tx ∈ vtx, checkTransaction env tx true false true = .ok ())
    (h : Balanced base bound conn)
    (hc : vtx.foldlM (connectTx rules env g mempool nHeight blockHash true) conn = .ok conn') :
    Balanced base (bound + (vtx.map (hiddenValue env)).sum) conn' := by
  induction vtx generalizing conn bound with
  | nil =>
    simp only [List.foldlM_nil, pure_eq_ok] at hc
    subst hc
    simpa using h
  | cons tx vtx ih =>
    obtain ⟨mid, hstep, hr⟩ := bind_eq_ok.1 hc
    have hm := balanced_connectTx (hcb tx List.mem_cons_self) (hch tx List.mem_cons_self) h hstep
    have hf := ih (fun t ht => hcb t (List.mem_cons_of_mem _ ht))
      (fun t ht => hch t (List.mem_cons_of_mem _ ht)) hm hr
    rw [List.map_cons, List.sum_cons, ← add_assoc]
    exact hf

theorem balanced_coinbase (hcb : tx.isCoinBase = true)
    (hc : checkTransaction env tx true false true = .ok ()) (h : CCoinsViewCache.Sound { base })
    (hco : connectTx rules env g mempool nHeight blockHash false
      { st := { view := { base }, cache } } tx = .ok conn) :
    Balanced base (utxoTotal base + outputValue tx.vout) conn := by
  obtain ⟨nFees, st, txundo, undo, hf, -, -, hu, rfl⟩ := connectTx_eq_ok.1 hco
  rw [hcb, if_pos rfl] at hf
  subst hf
  obtain ⟨hso, hb, ht⟩ := updateCoins_coinbase_total hcb hc h hu
  refine ⟨hso, hb, moneyRange_zero, ?_⟩
  rw [total_of_empty h] at ht
  simpa using ht

/-- The coinbase pays out at most the fees, the subsidy and what is not counted. -/
theorem coinbase_value_le {coinbase : CTransaction} {nFees : CAmount}
    (hc : checkTransaction env coinbase true false true = .ok ())
    (hf : moneyRange nFees = true)
    (h : checkReward rules env nHeight nFees coinbase = .ok ()) :
    outputValue coinbase.vout ≤
      nFees.toInt + (getBlockSubsidy nHeight).toInt + hiddenValue env coinbase := by
  obtain ⟨valueOut, hout, h⟩ := bind_eq_ok.1 h
  simp only [rejectIf, failIf_bind_eq_ok, decide_eq_false_iff_not] at h
  obtain ⟨-, hv⟩ := getValueOut_exact (orAbort_eq_ok.1 hout)
  have hle := h.1
  rw [gt_iff_lt, Int64.lt_iff_toInt_lt,
    toInt_add_of_moneyRange hf (moneyRange_getBlockSubsidy nHeight)] at hle
  have hsp : outputValue coinbase.vout = _ + hiddenValue env coinbase :=
    outputValue_eq (checkedValue_of_checkTransaction hc)
  omega

theorem balanced_connectTransactions (hh : vtx.head?.any CTransaction.isCoinBase = true)
    (hta : ∀ tx ∈ vtx.tail, tx.isCoinBase = false)
    (hch : ∀ tx ∈ vtx, checkTransaction env tx true false true = .ok ())
    (h : CCoinsViewCache.Sound { base })
    (hco : connectTransactions rules env g mempool nHeight blockHash
      { view := { base }, cache } vtx = .ok conn) :
    conn.st.view.Sound ∧ conn.st.view.total ≤ utxoTotal base + (getBlockSubsidy nHeight).toInt +
      (vtx.map (hiddenValue env)).sum := by
  cases vtx with
  | nil => cases hh
  | cons coinbase rest =>
    have hc := hch coinbase List.mem_cons_self
    obtain ⟨first, hfirst, hco⟩ := bind_eq_ok.1 hco
    obtain ⟨last, hl, hco⟩ := bind_eq_ok.1 hco
    obtain ⟨_, hr, hco⟩ := bind_eq_ok.1 hco
    rw [pure_eq_ok] at hco
    subst hco
    have hst := balanced_coinbase (by simpa using hh) hc h hfirst
    rw [List.tail_cons] at hta
    have he := balanced_foldlM hta (fun t ht => hch t (List.mem_cons_of_mem _ ht)) hst hl
    have hp := coinbase_value_le hc he.fees hr
    have hv := he.value
    refine ⟨he.sound, ?_⟩
    rw [List.map_cons, List.sum_cons]
    omega

/-- The unspent outputs of a chain state are worth nothing or more. -/
def NonNegative (base : TreeMap COutPoint Coin) : Prop :=
  ∀ (outpoint : COutPoint) (coin : Coin), base[outpoint]? = some coin → 0 ≤ coin.out.nValue.toInt

theorem sum_hiddenValue (vtx : List CTransaction) : (vtx.map (hiddenValue env)).sum =
    if env.areEnforcedValuesDeployed then 0 else (vtx.map reissueValue).sum := by
  cases he : env.areEnforcedValuesDeployed with
  | true =>
    have hh : hiddenValue env = fun _ => 0 := by
      funext tx
      simp [hiddenValue, he]
    simp [hh]
  | false =>
    have hh : hiddenValue env = reissueValue := by
      funext tx
      simp [hiddenValue, he]
    simp [hh]

theorem sum_hiddenValue_nonneg (h : ∀ tx ∈ vtx, checkTransaction env tx true false true = .ok ()) :
    0 ≤ (vtx.map (hiddenValue env)).sum := by
  refine List.sum_nonneg fun value hv => ?_
  obtain ⟨tx, htx, rfl⟩ := List.mem_map.1 hv
  unfold hiddenValue
  split
  · simp
  · refine outputValue_nonneg fun out hout => ?_
    exact (checkedValue_of_checkTransaction (h tx htx) out (List.mem_of_mem_filter hout)).nonneg

theorem connectBlock_total (hba : NonNegative base)
    (h : connectBlock rules env g mempool node nHeight { view := { base }, cache } block = .ok conn) :
    conn.st.view.Sound ∧ conn.st.view.total ≤ utxoTotal base + (getBlockSubsidy nHeight).toInt +
      (block.vtx.map (hiddenValue env)).sum := by
  have hso := sound_of_empty hba
  simp only [connectBlock] at h
  obtain ⟨_, hb, h⟩ := bind_eq_ok.1 h
  obtain ⟨hh, ht, hc⟩ := transactions_of_checkBlock hb
  split at h
  · rw [pure_eq_ok] at h
    subst h
    have hsu := (moneyRange_iff.1 (moneyRange_getBlockSubsidy nHeight)).1
    have hhi := sum_hiddenValue_nonneg hc
    have hto := total_of_empty hso
    exact ⟨hso, by dsimp only; omega⟩
  · exact balanced_connectTransactions hh ht hc hso h

/-- Chain states stay non-negative. -/
theorem nonNegative_connectBlock (hb : NonNegative base)
    (h : connectBlock rules env g mempool node nHeight { view := { base }, cache } block = .ok conn) :
    NonNegative conn.st.view.flush :=
  fun _ _ hc => (connectBlock_total hb h).1.flush_nonneg hc

/-- A block adds at most its subsidy to the value of the unspent outputs and, as long as the values
of reissues are not enforced, what its reissues carry. -/
theorem utxoTotal_connectBlock_le {base : TreeMap COutPoint Coin} {cache : CAssetsCache}
    {node : NodeState} {block : CBlock} {conn : Connected} (hbase : NonNegative base)
    (h : connectBlock rules env g mempool node nHeight { view := { base }, cache } block =
      .ok conn) :
    utxoTotal conn.st.view.flush - utxoTotal base ≤ (getBlockSubsidy nHeight).toInt +
      if env.areEnforcedValuesDeployed then 0 else (block.vtx.map reissueValue).sum := by
  obtain ⟨hso, ht⟩ := connectBlock_total hbase h
  have hf := hso.utxoTotal_flush_le
  rw [sum_hiddenValue] at ht
  omega

end Block

/-- Rules under which every script, lock time and merkle tree is in order. -/
def sampleRules : BlockRules where
  params := regTestConsensus sampleHashes 1
  blockMerkleRoot _ := (77, false)
  getLegacySigOpCount _ := 1
  getTransactionSigOpCost _ _ := 4
  sequenceLocks _ _ := true
  checkInputs _ _ := .ok ()
  scriptPubKeyCommunityAutonomous := []

def sampleHeader : CBlockHeader :=
  { mainGenesis with hashMerkleRoot := 77, nTime := 1688340060, nBits := 0x207fffff }

/-- A regtest node; no checkpoint is known there. -/
def sampleNode : NodeState where
  mapBlockIndex := ∅
  tip := none
  nodeCount := none
  time := 1688340060
  adjustedTime := 1688340060
  areAssetsDeployed := true

/-- A coinbase that pays the subsidy of the first blocks, with the share of the community. -/
def sampleCoinbase : CTransaction where
  hash := 12
  nVersion := 2
  vin := [⟨⟨0, 0xffffffff⟩, [1, 1], 0xffffffff⟩]
  vout := [⟨285 * coin, sampleScript⟩, ⟨15 * coin, sampleScript⟩]
  nLockTime := 0

def ownerOutPoint : COutPoint := ⟨7, 1⟩

def sampleOwner : CTxOut := sampleTransfer "MUSIC!" ownerAssetAmount

/-- A thousand coins, and the owner token of an asset. -/
def ownedBase : TreeMap COutPoint Coin :=
  ((∅ : TreeMap COutPoint Coin).insert sampleOutPoint ⟨⟨1000 * coin, sampleScript⟩, 1, false⟩).insert
    ownerOutPoint ⟨sampleOwner, 1, false⟩

/-- Databases that know an asset which may be reissued, and where its owner token is. -/
def ownedGlobals : AssetGlobals where
  passets := {}
  db := { (sampleGlobals { sampleMusic with nReissuable := 1 }).db with
    assetAddressQuantity := fun pair =>
      if pair.1 = str "MUSIC!" then some ownerAssetAmount else none }

/-- A reissue whose asset output carries the given value. -/
def payingReissue (nValue : CAmount) (reissue : CReissueAsset) : CTransaction where
  hash := 11
  nVersion := 2
  vin := [⟨sampleOutPoint, [], 0xffffffff⟩, ⟨ownerOutPoint, [], 0xffffffff⟩]
  vout := [⟨10 * coin, CScript.payToPubKeyHash reissueBurnKey⟩, sampleOwner,
    ⟨nValue, reissue.constructTransaction sampleScript⟩]
  nLockTime := 0

def sampleReissue : CReissueAsset := { strName := str "MUSIC", nAmount := 100000000, nUnits := -1 }

/-- The reissue spends 1000 coins, burns 10 and pays 5000 next to the asset. -/
def payingBlock : CBlock := ⟨sampleHeader, [sampleCoinbase, payingReissue (5000 * coin) sampleReissue]⟩

def unenforcedEnv : Env := { sampleEnv with areEnforcedValuesDeployed := false }

def connectPaying : Checked Connected :=
  connectBlock sampleRules unenforcedEnv ownedGlobals {} sampleNode 10
    { view := { base := ownedBase }, cache := {} } payingBlock

theorem nonNegative_ownedBase : NonNegative ownedBase := by
  intro outpoint coin hc
  have hm := TreeMap.mem_toList_iff_getElem?_eq_some.2 hc
  have ha : ∀ p ∈ ownedBase.toList, 0 ≤ p.2.out.nValue.toInt := by decide +kernel
  exact ha _ hm

/-- The value of the unspent outputs after a connected block. -/
def totalAfter (connected : Checked Connected) : Option ℤ :=
  match connected with
  | .ok conn => some (utxoTotal conn.st.view.flush)
  | .error _ => none

theorem totalAfter_connectPaying : totalAfter connectPaying = some (5310 * 100000000) := by
  decide +kernel

theorem exists_of_totalAfter {connected : Checked Connected} {total : ℤ}
    (h : totalAfter connected = some total) :
    ∃ conn, connected = .ok conn ∧ utxoTotal conn.st.view.flush = total := by
  unfold totalAfter at h
  split at h
  next conn => exact ⟨conn, rfl, Option.some.inj h⟩
  · cases h

theorem utxoTotal_connectBlock_le_payingBlock :
    ∃ conn, NonNegative ownedBase ∧ connectPaying = .ok conn ∧
      utxoTotal conn.st.view.flush - utxoTotal ownedBase ≤ (getBlockSubsidy 10).toInt +
        if unenforcedEnv.areEnforcedValuesDeployed then 0
        else (payingBlock.vtx.map reissueValue).sum := by
  obtain ⟨conn, hc, -⟩ := exists_of_totalAfter totalAfter_connectPaying
  exact ⟨conn, nonNegative_ownedBase, hc, utxoTotal_connectBlock_le nonNegative_ownedBase hc⟩

/-- An accepted block that adds 4310 coins where its subsidy is 300. -/
theorem payingBlock_inflates : ∃ conn, NonNegative ownedBase ∧ connectPaying = .ok conn ∧
      (getBlockSubsidy 10).toInt = 300 * 100000000 ∧
      utxoTotal conn.st.view.flush - utxoTotal ownedBase = 4310 * 100000000 := by
  obtain ⟨conn, hc, ht⟩ := exists_of_totalAfter totalAfter_connectPaying
  have hb : utxoTotal ownedBase = 1000 * 100000000 := by decide +kernel
  have hsu : (getBlockSubsidy 10).toInt = 300 * 100000000 := by decide
  refine ⟨conn, nonNegative_ownedBase, hc, hsu, ?_⟩
  omega

end Cmusic
