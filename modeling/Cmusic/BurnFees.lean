import Cmusic.CommandAuthority
import Cmusic.StillValid
import Cmusic.NameUniqueness
import Cmusic.MempoolNames
import Cmusic.NameGrammar

/-! The coins that an accepted transaction burns for the assets it creates and the tags it adds. -/
namespace Cmusic

open Fallible CTransaction

variable (env : Env) {type : AssetType} {asset : CNewAsset}
  {fMempoolCheck fBlockCheck fCheckDuplicateInputs : Bool}

/-- The parameters of one of the networks. -/
def Env.OnNetwork : Prop :=
  env.params = mainParams ∨ env.params = testNetParams ∨ env.params = regTestParams

/-- The addresses to which fees are burnt. -/
def burnAddresses : List Str :=
  [AssetType.root, .sub, .msgChannel, .unique, .reissue, .qualifier, .subQualifier, .restricted,
    .nullAddQualifier].map (getBurnAddress env)

def isBurnOut (out : CTxOut) : Bool :=
  (extractAddress env out.scriptPubKey).any fun address => address ∈ burnAddresses env

/-- What an output adds to the burnt coins. -/
def burntBy (out : CTxOut) : Int := if isBurnOut env out then out.nValue.toInt else 0

def burnt (tx : CTransaction) : Int := (tx.vout.map (burntBy env)).sum

/-- The output tags an address: this is what `AddCoins` hands to the cache as an addition. -/
def addsTag (out : CTxOut) : Bool :=
  (assetNullDataFromScript env out.scriptPubKey).any fun (data, _) =>
    (CTransaction.nameTypeOrInvalid data.assetName = .qualifier ||
      CTransaction.nameTypeOrInvalid data.assetName = .subQualifier) && data.flag ≠ 0

/-- The fee of each created asset is the one of its type. -/
def issueFees (tx : CTransaction) : Int :=
  ((issuedNames env tx).map fun name =>
    (getBurnAmount env (CTransaction.nameTypeOrInvalid name)).toInt).sum

def reissueFee (tx : CTransaction) : Int :=
  if reissuedNames env tx = [] then 0 else env.params.nReissueAssetBurnAmount.toInt

def tagFees (tx : CTransaction) : Int :=
  env.params.nAddNullQualifierTagBurnAmount.toInt * tx.vout.countP (addsTag env)

variable {env} {tx : CTransaction}

/-- Only tags are paid for at the address of the tags. -/
theorem getBurnAddress_ne (hn : env.OnNetwork) (ht : type ≠ .nullAddQualifier) :
    getBurnAddress env type ≠ env.params.strAddNullQualifierTagBurnAddress := by
  rcases hn with h | h | h
  all_goals
    cases type with
    | nullAddQualifier => exact absurd rfl ht
    | _ => simp only [getBurnAddress, h]; decide

theorem amounts_of_onNetwork (hn : env.OnNetwork) :
    env.params.nIssueUniqueAssetBurnAmount = 50000000 ∧
      env.params.nAddNullQualifierTagBurnAmount = 1000000 := by
  rcases hn with h | h | h <;> rw [h] <;> exact ⟨rfl, rfl⟩

theorem nameTypeOrInvalid_ne (name : Str) : nameTypeOrInvalid name ≠ .nullAddQualifier := by
  unfold nameTypeOrInvalid
  cases ht : assetNameType name with
  | none => simp
  | some type =>
    obtain ⟨-, hi, -⟩ := assetNameType_iff.1 ht
    rw [Option.getD_some, ← hi, indicatedType]
    split_ifs <;> simp

/-- A fee for several items is not wrapped around. -/
theorem toInt_mul_ofNat {amount : CAmount} {n : Nat} (hno : 0 ≤ amount.toInt)
    (ha : amount.toInt ≤ 50000000) (hn : n < 2 ^ 32) :
    (amount * Int64.ofNat n).toInt = amount.toInt * n := by
  have hsm : (Int64.ofNat n).toInt = n := Int64.toInt_ofNat_of_lt (by omega)
  have hle : amount.toInt * n ≤ 50000000 * n := Int.mul_le_mul_of_nonneg_right ha (by omega)
  have hp : 0 ≤ amount.toInt * n := Int.mul_nonneg hno (by omega)
  rw [Int64.toInt_mul, hsm]
  exact Int.bmod_eq_of_le (by omega) (by omega)

/-- Some output pays the amount to the address. -/
def Pays (env : Env) (tx : CTransaction) (amount : Int) (address : Str) : Prop :=
  ∃ out ∈ tx.vout, out.nValue.toInt = amount ∧ extractAddress env out.scriptPubKey = some address

theorem pays_of_checkIssueBurnTx {n : Nat} (h : tx.vout.any (checkIssueBurnTx env type n) = true) :
    Pays env tx (getBurnAmount env type * Int64.ofNat n).toInt (getBurnAddress env type) ∧
      getBurnAddress env type ∈ burnAddresses env := by
  obtain ⟨out, hout, hc⟩ := List.any_eq_true.1 h
  have hpays : paysBurn env (getBurnAmount env type * Int64.ofNat n) (getBurnAddress env type) out =
      true ∧ getBurnAddress env type ∈ burnAddresses env := by
    cases type with
    | reissue | vote | owner | invalid => cases hc
    | _ => exact ⟨hc, by simp [burnAddresses]⟩
  refine ⟨⟨out, hout, ?_⟩, hpays.2⟩
  simp only [paysBurn, Bool.and_eq_true, decide_eq_true_eq] at hpays
  exact ⟨by rw [hpays.1.1], hpays.1.2⟩

theorem single_le_sum_map {α : Type} {f : α → Int} {l : List α} (hn : ∀ a ∈ l, 0 ≤ f a) {x : α}
    (hx : x ∈ l) : f x ≤ (l.map f).sum := by
  refine List.single_le_sum ?_ (f x) (List.mem_map_of_mem hx)
  simpa using hn

/-- Two different elements of a list both count towards the sum. -/
theorem add_le_sum_map {α : Type} {f : α → Int} {l : List α} (hn : ∀ a ∈ l, 0 ≤ f a) {x y : α}
    (hx : x ∈ l) (hy : y ∈ l) (hne : x ≠ y) : f x + f y ≤ (l.map f).sum := by
  induction l with
  | nil => cases hx
  | cons a l ih =>
    obtain ⟨hfirst, hr⟩ := List.forall_mem_cons.1 hn
    rw [List.map_cons, List.sum_cons]
    rcases List.mem_cons.1 hx with rfl | hxl
    · have ho := single_le_sum_map hr (List.mem_of_ne_of_mem hne.symm hy)
      omega
    rcases List.mem_cons.1 hy with rfl | hyl
    · have ho := single_le_sum_map hr hxl
      omega
    · have hb := ih hr hxl hyl
      omega

section Burnt

variable {v w : Int} {a b : Str} {out : CTxOut}

theorem burntBy_nonneg (h : 0 ≤ out.nValue.toInt) : 0 ≤ burntBy env out := by
  unfold burntBy
  split_ifs
  · exact h
  · exact Int.le_refl 0

theorem burntBy_eq (h : extractAddress env out.scriptPubKey = some a) (ha : a ∈ burnAddresses env) :
    burntBy env out = out.nValue.toInt := by
  simp [burntBy, isBurnOut, h, ha]

theorem le_burnt (hn : ∀ out ∈ tx.vout, 0 ≤ out.nValue.toInt) (hv : Pays env tx v a)
    (ha : a ∈ burnAddresses env) : v ≤ burnt env tx := by
  obtain ⟨out, hout, rfl, had⟩ := hv
  rw [← burntBy_eq had ha]
  exact single_le_sum_map (fun out hout => burntBy_nonneg (hn out hout)) hout

/-- Payments to two addresses are in two outputs. -/
theorem add_le_burnt (hn : ∀ out ∈ tx.vout, 0 ≤ out.nValue.toInt) (hv : Pays env tx v a)
    (ha : a ∈ burnAddresses env) (hw : Pays env tx w b) (hb : b ∈ burnAddresses env) (hne : a ≠ b) :
    v + w ≤ burnt env tx := by
  obtain ⟨out, hout, rfl, had⟩ := hv
  obtain ⟨other, ho, rfl, ha'⟩ := hw
  rw [← burntBy_eq had ha, ← burntBy_eq ha' hb]
  refine add_le_sum_map (fun out hout => burntBy_nonneg (hn out hout)) hout ho ?_
  rintro rfl
  rw [had] at ha'
  exact hne (Option.some.inj ha')

end Burnt

/-! ## The fee of the class -/

/-- A single issue burns the fee of the type of its name. -/
theorem pays_of_singleIssue (hi : SingleIssue env tx asset)
    (hb : tx.vout.any (checkIssueBurnTx env (nameTypeOrInvalid asset.strName) 1) = true) :
    Pays env tx (issueFees env tx)
      (getBurnAddress env (nameTypeOrInvalid asset.strName)) := by
  obtain ⟨hpays, -⟩ := pays_of_checkIssueBurnTx hb
  have ho : ∀ amount : CAmount, amount * Int64.ofNat 1 = amount := fun amount => Int64.mul_one amount
  rw [issueFees, issuedNames_of_single hi]
  simpa using hpays

theorem burn_of_verifyNewAsset (h : tx.verifyNewAsset env = .ok ()) (hh : tx.hash ≠ badHash)
    (hhash2 : tx.hash ≠ badHash2) (hi : SingleIssue env tx asset) :
    tx.vout.any (checkIssueBurnTx env (nameTypeOrInvalid asset.strName) 1) = true := by
  obtain ⟨address, hl⟩ := hi.last
  simp only [verifyNewAsset, failIf_bind_eq_ok, hl] at h
  obtain ⟨-, -, -, h⟩ := h
  split at h
  · cases h
  · simp only [failIf_bind_eq_ok, failIf_eq_ok] at h
    simpa [hh, hhash2] using h.2.1

theorem burn_of_verifyNewMsgChannelAsset (h : tx.verifyNewMsgChannelAsset env = .ok ()) :
    tx.vout.any (checkIssueBurnTx env .msgChannel 1) = true := by
  simp only [verifyNewMsgChannelAsset, failIf_bind_eq_ok] at h
  obtain ⟨-, -, h⟩ := h
  split at h
  · cases h
  · simp only [failIf_bind_eq_ok, Bool.not_eq_false'] at h
    exact h.1

theorem burn_of_verifyNewQualfierAsset (h : tx.verifyNewQualfierAsset env = .ok ())
    (hi : SingleIssue env tx asset) :
    tx.vout.any (checkIssueBurnTx env (nameTypeOrInvalid asset.strName) 1) = true := by
  obtain ⟨address, hl⟩ := hi.last
  simp only [verifyNewQualfierAsset, failIf_bind_eq_ok, qualifierAssetFromScript] at h
  obtain ⟨-, -, h⟩ := h
  split at h
  · cases h
  next found address' hf =>
    split_ifs at hf
    rw [hl] at hf
    cases hf
    simp only [failIf_bind_eq_ok, Bool.not_eq_false'] at h
    exact h.1

theorem burn_of_verifyNewRestrictedAsset (h : tx.verifyNewRestrictedAsset env = .ok ())
    (hi : SingleIssue env tx asset) :
    tx.vout.any (checkIssueBurnTx env (nameTypeOrInvalid asset.strName) 1) = true := by
  obtain ⟨address, hl⟩ := hi.last
  simp only [verifyNewRestrictedAsset, failIf_bind_eq_ok, restrictedAssetFromScript] at h
  obtain ⟨-, -, h⟩ := h
  split at h
  · cases h
  next found address' hf =>
    split_ifs at hf
    rw [hl] at hf
    cases hf
    simp only [failIf_bind_eq_ok, Bool.not_eq_false'] at h
    exact h.1

/-- Where every issue is one of a unique asset, the issues are those that the scan has counted. -/
theorem length_issuedNames (hal : ∀ out ∈ tx.vout, ∀ p, assetFromScript env out.scriptPubKey = some p →
      isScriptNewUniqueAsset env out.scriptPubKey = true) :
    (issuedNames env tx).length =
      tx.vout.countP fun out => isScriptNewUniqueAsset env out.scriptPubKey := by
  rw [issuedNames, List.length_filterMap_eq_countP]
  refine List.countP_congr fun out hout => ?_
  cases ha : assetFromScript env out.scriptPubKey with
  | none => simp [isScriptNewUniqueAsset, isScriptNewAssetOf, ha]
  | some p => simp [hal out hout p ha]

theorem issueFees_of_unique (hi : ∀ name ∈ issuedNames env tx, assetNameType name = some .unique) :
    issueFees env tx = env.params.nIssueUniqueAssetBurnAmount.toInt * (issuedNames env tx).length := by
  have hf : ∀ name ∈ issuedNames env tx, (getBurnAmount env (nameTypeOrInvalid name)).toInt =
        env.params.nIssueUniqueAssetBurnAmount.toInt := by
    intro name hname
    rw [nameTypeOrInvalid, hi name hname]
    rfl
  rw [issueFees, List.map_congr_left hf, List.map_const', List.sum_replicate, nsmul_eq_mul,
    Int.mul_comm]

/-- The unique assets of a transaction are counted before their fee is looked for. -/
theorem pays_of_verifyNewUniqueAsset (hn : env.OnNetwork)
    (h : tx.verifyNewUniqueAsset env = .ok ()) (hl : tx.vout.length < 2 ^ 32) :
    Pays env tx (issueFees env tx) (getBurnAddress env .unique) := by
  obtain ⟨-, hi⟩ := verifyNewUniqueAsset_ok h
  obtain ⟨scan, hsca, -, -, hal⟩ := exists_of_verifyNewUniqueAsset h
  have hc : scan.assetOutpointCount = (issuedNames env tx).length := by
    have hsc : UniqueScanned env tx.vout scan :=
      foldlM_invariant (UniqueScanned env) hsca ⟨by simp, rfl⟩ fun _ _ _ _ => uniqueScanned_step
    rw [hsc.count, length_issuedNames hal]
  have hb : tx.vout.any (checkIssueBurnTx env .unique scan.assetOutpointCount) = true := by
    simp only [verifyNewUniqueAsset, failIf_bind_eq_ok] at h
    obtain ⟨-, h⟩ := h
    obtain ⟨found, hf, h⟩ := bind_eq_ok.1 h
    rw [hsca] at hf
    cases hf
    simp only [failIf_bind_eq_ok, Bool.not_eq_false'] at h
    exact h.2.1
  obtain ⟨hpays, -⟩ := pays_of_checkIssueBurnTx hb
  have ha : getBurnAmount env .unique = 50000000 := (amounts_of_onNetwork hn).1
  have hle : (issuedNames env tx).length ≤ tx.vout.length := List.length_filterMap_le _ _
  rw [issueFees_of_unique fun name hname => (hi name hname).1, ← hc]
  rw [toInt_mul_ofNat (by rw [ha]; decide) (by rw [ha]; decide) (by omega)] at hpays
  exact hpays

theorem pays_of_verifyReissueAsset (h : tx.verifyReissueAsset env = .ok ()) :
    Pays env tx env.params.nReissueAssetBurnAmount.toInt (getBurnAddress env .reissue) := by
  simp only [verifyReissueAsset, failIf_bind_eq_ok] at h
  obtain ⟨-, -, h⟩ := h
  split at h
  · cases h
  · simp only [failIf_bind_eq_ok, Bool.not_eq_false'] at h
    obtain ⟨-, hb, -⟩ := h
    obtain ⟨out, hout, hpays⟩ := List.any_eq_true.1 hb
    simp only [checkReissueBurnTx, paysBurn, Bool.and_eq_true, decide_eq_true_eq] at hpays
    exact ⟨out, hout, by rw [hpays.1], hpays.2⟩

/-- Where the fee of the class is paid: at the burn address of a type other than the tags. -/
theorem classFee (hnet : env.OnNetwork) {use : RestrictedUse}
    (h : checkAssetClass env tx = .ok use) (hh : tx.hash ≠ badHash) (hhash2 : tx.hash ≠ badHash2)
    (hl : tx.vout.length < 2 ^ 32) :
    issueFees env tx + reissueFee env tx = 0 ∨
      ∃ type, type ≠ .nullAddQualifier ∧ getBurnAddress env type ∈ burnAddresses env ∧
        Pays env tx (issueFees env tx + reissueFee env tx) (getBurnAddress env type) := by
  have hsi : ∀ asset, SingleIssue env tx asset →
      tx.vout.any (checkIssueBurnTx env (nameTypeOrInvalid asset.strName) 1) = true →
      ∃ type, type ≠ .nullAddQualifier ∧ getBurnAddress env type ∈ burnAddresses env ∧
        Pays env tx (issueFees env tx + reissueFee env tx) (getBurnAddress env type) := by
    intro asset hi hb
    refine ⟨_, nameTypeOrInvalid_ne asset.strName, (pays_of_checkIssueBurnTx hb).2, ?_⟩
    rw [reissueFee, if_pos (reissuedNames_eq_nil hi.reissues), Int.add_zero]
    exact pays_of_singleIssue hi hb
  cases routed_of_checkAssetClass h with
  | newAsset _ hverify =>
    obtain ⟨asset, hi, -⟩ := verifyNewAsset_ok hverify
    exact .inr (hsi asset hi (burn_of_verifyNewAsset hverify hh hhash2 hi))
  | reissue _ _ hverify =>
    obtain ⟨his, -⟩ := verifyReissueAsset_ok hverify
    have hn : issueFees env tx = 0 := by simp [issueFees, his]
    rw [hn, Int.zero_add, reissueFee]
    split_ifs
    · exact .inl rfl
    · exact .inr ⟨.reissue, by decide, by simp [burnAddresses], pays_of_verifyReissueAsset hverify⟩
  | unique _ _ _ hverify =>
    refine .inr ⟨.unique, by decide, by simp [burnAddresses], ?_⟩
    rw [reissueFee, if_pos (verifyNewUniqueAsset_ok hverify).1, Int.add_zero]
    exact pays_of_verifyNewUniqueAsset hnet hverify hl
  | msgChannel _ _ _ _ hverify =>
    obtain ⟨asset, hi, -, ht⟩ := verifyNewMsgChannelAsset_ok hverify
    refine .inr (hsi asset hi ?_)
    rw [nameTypeOrInvalid, ht]
    exact burn_of_verifyNewMsgChannelAsset hverify
  | qualifier _ _ _ _ _ hverify =>
    obtain ⟨asset, hi, -⟩ := verifyNewQualfierAsset_ok hverify
    exact .inr (hsi asset hi (burn_of_verifyNewQualfierAsset hverify hi))
  | restricted _ _ _ _ _ _ hverify =>
    obtain ⟨asset, hi, -⟩ := verifyNewRestrictedAsset_ok hverify
    exact .inr (hsi asset hi (burn_of_verifyNewRestrictedAsset hverify hi))
  | plain _ _ _ _ _ _ hplain =>
    obtain ⟨his, hr⟩ := @names_eq_nil_of_checkPlainOut env tx hplain
    exact .inl (by simp [issueFees, reissueFee, his, hr])

/-! ## The fee of the tags -/

/-- The tags that the loop has counted. -/
structure TagsCounted (env : Env) (outs : List CTxOut) (scan : TxOutScan) : Prop where
  least : outs.countP (addsTag env) ≤ scan.nCountAddTagOuts
  most : scan.nCountAddTagOuts ≤ outs.length

variable {scan scan' : TxOutScan} {txout : CTxOut}

/-- The loop counts every output that adds a tag. -/
theorem counted_of_addsTag {data : CNullAssetTxData} {address : Str} {u : Unit}
    (hr : assetNullDataFromScript env txout.scriptPubKey = some (data, address))
    (hf : verifyNullAssetDataFlag data.flag = .ok u) (ha : addsTag env txout = true) :
    isAssetNameAQualifier data.assetName false = true ∧ data.flag = 1 := by
  simp only [addsTag, hr, Option.any_some, Bool.and_eq_true, Bool.or_eq_true,
    decide_eq_true_eq] at ha
  obtain ⟨ht, hse⟩ := ha
  constructor
  · rcases ht with h | h
    · exact isAssetNameAQualifier_of_type (assetNameType_of_nameTypeOrInvalid h (by decide)) (.inl rfl)
    · exact isAssetNameAQualifier_of_type (assetNameType_of_nameTypeOrInvalid h (by decide)) (.inr rfl)
  · by_contra ho
    simp [verifyNullAssetDataFlag, hse, ho] at hf

theorem nCountAddTagOuts_scanNullAsset (h : scanNullAsset env scan txout = .ok scan') :
    scan.nCountAddTagOuts + (if addsTag env txout then 1 else 0) ≤ scan'.nCountAddTagOuts ∧
      scan'.nCountAddTagOuts ≤ scan.nCountAddTagOuts + 1 := by
  have hsa : addsTag env txout = false → scan'.nCountAddTagOuts = scan.nCountAddTagOuts →
      scan.nCountAddTagOuts + (if addsTag env txout then 1 else 0) ≤ scan'.nCountAddTagOuts ∧
        scan'.nCountAddTagOuts ≤ scan.nCountAddTagOuts + 1 := by
    intro hn heq
    simp [hn, heq]
  unfold scanNullAsset at h
  dsimp only at h
  split at h
  · split at h
    · cases h
    next data address hr =>
      obtain ⟨_, hf, h⟩ := bind_eq_ok.1 h
      obtain ⟨_, -, h⟩ := bind_eq_ok.1 h
      obtain rfl := pure_eq_ok.1 h
      cases ha : addsTag env txout with
      | true =>
        obtain ⟨hname, ho⟩ := counted_of_addsTag hr (mapError_eq_ok.1 hf) ha
        simp [hname, ho]
      | false =>
        simp only [Bool.false_eq_true, if_false]
        split_ifs
        · omega
        · omega
  next hd =>
    have hn : addsTag env txout = false := by
      cases hr : assetNullDataFromScript env txout.scriptPubKey with
      | none => simp [addsTag, hr]
      | some p => exact absurd (isNullAssetTxDataScript_of_data hr) hd
    refine hsa hn ?_
    split at h
    · split at h
      · cases h
      · simp only [rejectIf, bind_eq_ok, pure_eq_ok] at h
        obtain ⟨-, -, -, -, rfl⟩ := h
        rfl
    · split at h
      · simp only [rejectIf, bind_eq_ok, pure_eq_ok] at h
        obtain ⟨-, -, -, -, rfl⟩ := h
        rfl
      · rw [pure_eq_ok.1 h]

theorem nCountAddTagOuts_scanAsset
    (h : scanAsset env fMempoolCheck fBlockCheck scan txout = .ok scan') :
    scan'.nCountAddTagOuts = scan.nCountAddTagOuts := by
  unfold scanAsset at h
  split at h
  · rw [pure_eq_ok.1 h]
  · split at h
    · split at h
      · cases h
      · obtain ⟨_, -, h⟩ := bind_eq_ok.1 h
        rw [← pure_eq_ok.1 h]
    · obtain ⟨_, -, h⟩ := bind_eq_ok.1 h
      rw [pure_eq_ok.1 h]
    · obtain ⟨_, -, h⟩ := bind_eq_ok.1 h
      obtain ⟨_, -, h⟩ := bind_eq_ok.1 h
      rw [pure_eq_ok.1 h]
    · cases h

theorem tagsCounted_step {outs : List CTxOut} (hcou : TagsCounted env outs scan)
    (h : scanTxOut env fMempoolCheck fBlockCheck scan txout = .ok scan') :
    TagsCounted env (outs ++ [txout]) scan' := by
  simp only [scanTxOut, rejectIf, bind_eq_ok] at h
  obtain ⟨-, -, -, -, -, -, mid, hn, ha⟩ := h
  obtain ⟨hl, hm⟩ := nCountAddTagOuts_scanNullAsset hn
  dsimp only at hl hm
  obtain ⟨hc, hco⟩ := hcou
  constructor
  · rw [nCountAddTagOuts_scanAsset ha, List.countP_append, List.countP_singleton]
    omega
  · rw [nCountAddTagOuts_scanAsset ha, List.length_append, List.length_singleton]
    omega

/-- Tags are paid for at their own address, for at least as many as are added. -/
theorem tagFee (hnet : env.OnNetwork)
    (h : checkTransaction env tx fCheckDuplicateInputs fMempoolCheck fBlockCheck = .ok ()) :
    tagFees env tx = 0 ∨ ∃ fee, tagFees env tx ≤ fee ∧
      Pays env tx fee env.params.strAddNullQualifierTagBurnAddress := by
  have hl := (length_of_checkTransaction h).2
  simp only [checkTransaction, rejectIf, failIf_bind_eq_ok] at h
  obtain ⟨-, -, -, h⟩ := h
  obtain ⟨scan, hsc, h⟩ := bind_eq_ok.1 h
  obtain ⟨hb, -⟩ := failIf_bind_eq_ok.1 h
  obtain ⟨hle, hm⟩ : TagsCounted env tx.vout scan :=
    foldlM_invariant (TagsCounted env) hsc ⟨by simp, by simp⟩ fun _ _ _ _ => tagsCounted_step
  have ha := (amounts_of_onNetwork hnet).2
  by_cases hz : scan.nCountAddTagOuts = 0
  · left
    have hn : tx.vout.countP (addsTag env) = 0 := by omega
    rw [tagFees, hn]
    simp
  · right
    have han : tx.vout.any (checkIssueBurnTx env .nullAddQualifier scan.nCountAddTagOuts) = true := by
      simpa [hz, checkAddingTagBurnFee] using hb
    obtain ⟨hpays, -⟩ := pays_of_checkIssueBurnTx han
    have ht : getBurnAmount env .nullAddQualifier = 1000000 := ha
    rw [toInt_mul_ofNat (by rw [ht]; decide) (by rw [ht]; decide) (by omega)] at hpays
    refine ⟨_, ?_, hpays⟩
    rw [tagFees, ht, ha]
    have hv : (1000000 : CAmount).toInt = 1000000 := by decide
    rw [hv]
    omega

/-! ## Both fees -/

/-- A transaction that passes `CheckTransaction`, other than the two that are let through by their
hash, burns what its issues, its reissue and its tags cost together. -/
theorem burnFees_le_burnt (hnetwork : env.OnNetwork) (hhash : tx.hash ≠ badHash)
    (hhash2 : tx.hash ≠ badHash2) {fCheckDuplicateInputs fMempoolCheck fBlockCheck : Bool}
    (h : checkTransaction env tx fCheckDuplicateInputs fMempoolCheck fBlockCheck = .ok ()) :
    issueFees env tx + reissueFee env tx + tagFees env tx ≤ burnt env tx := by
  have hn : ∀ out ∈ tx.vout, 0 ≤ out.nValue.toInt :=
    fun out hout => (nonneg_of_checkTransaction h out hout).1
  obtain ⟨use, hclass⟩ := routed_of_checkTransaction h
  have ht : env.params.strAddNullQualifierTagBurnAddress ∈ burnAddresses env := by
    simp [burnAddresses, getBurnAddress]
  rcases classFee hnetwork hclass hhash hhash2 (length_of_checkTransaction h).2 with
    hf | ⟨type, hty, ha, hpays⟩
  · rcases tagFee hnetwork h with hno | ⟨fee, hle, hfe⟩
    · have hz : 0 ≤ burnt env tx := by
        apply List.sum_nonneg
        intro value hv
        obtain ⟨out, hout, rfl⟩ := List.mem_map.1 hv
        exact burntBy_nonneg (hn out hout)
      omega
    · have hb := le_burnt hn hfe ht
      omega
  · rcases tagFee hnetwork h with hno | ⟨fee, hle, hfe⟩
    · have hb := le_burnt hn hpays ha
      omega
    · have hb := add_le_burnt hn hpays ha hfe ht
        (getBurnAddress_ne hnetwork hty)
      omega

/-- The key hash of the address to which regtest burns the fees of tags. -/
def tagBurnKey : Str :=
  [220, 20, 153, 49, 46, 216, 189, 6, 45, 17, 78, 33, 136, 210, 56, 238, 81, 202, 48, 217]

def tagEnv : Env := burnEnv tagBurnKey [89, 175, 150, 244]

/-- A reissue that also tags an address twice. -/
def taggingReissue : CTransaction :=
  { payingReissue 0 sampleReissue with
    vout := [⟨2000000, CScript.payToPubKeyHash tagBurnKey⟩, sampleTransfer "#KYC" coin,
      sampleTransfer "#AGE" coin, sampleCommand "#KYC" 1, sampleCommand "#AGE" 1] ++
        (payingReissue 0 sampleReissue).vout }

theorem burnFees_le_burnt_taggingReissue :
    checkTransaction tagEnv taggingReissue true true false = .ok () ∧
      reissueFee tagEnv taggingReissue = 1000000000 ∧ tagFees tagEnv taggingReissue = 2000000 ∧
      issueFees tagEnv taggingReissue + reissueFee tagEnv taggingReissue +
        tagFees tagEnv taggingReissue ≤ burnt tagEnv taggingReissue := by
  have hc : checkTransaction tagEnv taggingReissue true true false = .ok () := by decide +kernel
  exact ⟨hc, by decide +kernel, by decide +kernel,
    burnFees_le_burnt (.inr (.inr rfl)) (by decide) (by decide) hc⟩

end Cmusic
