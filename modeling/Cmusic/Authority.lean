import Cmusic.Conservation

/-! The token a transaction must spend in order to create or to reissue an asset. -/
namespace Cmusic

open Fallible Pattern CScript

variable (env : Env) {script : CScript} {α : Type} {l : List α} {a b : α} {out : CTxOut}
  {asset : CNewAsset} {name address : Str} {use : RestrictedUse}

/-- The names of the assets a transaction creates. -/
def issuedNames (tx : CTransaction) : List Str :=
  tx.vout.filterMap fun out => (assetFromScript env out.scriptPubKey).map (·.1.strName)

def reissuedNames (tx : CTransaction) : List Str :=
  tx.vout.filterMap fun out => (reissueAssetFromScript env out.scriptPubKey).map (·.1.strName)

/-- The token whose holder may create the asset `name`; root names need none. -/
def authorityToken (name : Str) : Option Str :=
  match assetNameType name with
  | some .sub | some .unique | some .msgChannel => some (getParentName name ++ ownerTag)
  | some .subQualifier => some (getParentName name)
  | some .restricted => some (name.drop 1 ++ ownerTag)
  | _ => none

/-- What was checked about a transaction with one issue, in its last output. -/
structure SingleIssue (tx : CTransaction) (asset : CNewAsset) : Prop where
  nonempty : tx.vout ≠ []
  last : ∃ address, assetFromScript env tx.lastScript = some (asset, address)
  issues : (getTxOutAssetTypes tx.vout).issues = 1
  reissues : (getTxOutAssetTypes tx.vout).reissues = 0

variable {env} {tx : CTransaction}

theorem isNewAsset_of_assetFromScript {p : CNewAsset × Str}
    (h : assetFromScript env script = some p) : isNewAsset script = true := by
  cases hs : isScriptNewAsset script with
  | none => simp [assetFromScript, hs] at h
  | some n => simp [isNewAsset, hs]

theorem isReissueAsset_of_reissueAssetFromScript {p : CReissueAsset × Str}
    (h : reissueAssetFromScript env script = some p) : isReissueAsset script = true := by
  cases hs : isScriptReissueAsset script with
  | none => simp [reissueAssetFromScript, hs] at h
  | some n => simp [isReissueAsset, hs]

theorem eq_of_countP_eq_one {p : α → Bool} (h : l.countP p = 1) (ha : a ∈ l) (hpa : p a)
    (hb : b ∈ l) (hpb : p b) : a = b := by
  rw [List.countP_eq_length_filter, List.length_eq_one_iff] at h
  obtain ⟨c, hc⟩ := h
  have hm : ∀ x ∈ l, p x → x = c := by
    intro x hx hpx
    have hf : x ∈ l.filter p := List.mem_filter.2 ⟨hx, hpx⟩
    simpa [hc] using hf
  rw [hm a ha hpa, hm b hb hpb]

theorem exists_mem_lastScript (h : tx.vout ≠ []) :
    ∃ out ∈ tx.vout, out.scriptPubKey = tx.lastScript :=
  ⟨tx.vout.getLast h, List.getLast_mem h, by
    simp [CTransaction.lastScript, List.getLast?_eq_getLast_of_ne_nil h]⟩

/-- With one output of a kind, a payload of that kind is the one in the last output. -/
theorem eq_last_of_countP (isKind : CScript → Bool) {payload : CScript → Option α}
    (hki : ∀ script a, payload script = some a → isKind script = true)
    (hc : tx.vout.countP (fun out => isKind out.scriptPubKey) = 1) (hne : tx.vout ≠ [])
    (hl : payload tx.lastScript = some a) (hout : out ∈ tx.vout)
    (hb : payload out.scriptPubKey = some b) : b = a := by
  obtain ⟨last, hm, hsc⟩ := exists_mem_lastScript hne
  have heq : out = last := by
    refine eq_of_countP_eq_one hc hout (hki _ _ hb) hm ?_
    rw [hsc]
    exact hki _ _ hl
  rw [heq, hsc, hl] at hb
  exact (Option.some.inj hb).symm

theorem SingleIssue.issued_eq (h : SingleIssue env tx asset) (hname : name ∈ issuedNames env tx) :
    name = asset.strName := by
  obtain ⟨address, hl⟩ := h.last
  simp only [issuedNames, List.mem_filterMap, Option.map_eq_some_iff] at hname
  obtain ⟨out, hout, p, hp, rfl⟩ := hname
  have heq : p = (asset, address) :=
    eq_last_of_countP isNewAsset (fun _ _ => isNewAsset_of_assetFromScript) h.issues
      h.nonempty hl hout hp
  rw [heq]

theorem reissuedNames_eq_nil (h : (getTxOutAssetTypes tx.vout).reissues = 0) :
    reissuedNames env tx = [] := by
  simp only [reissuedNames, List.filterMap_eq_nil_iff, Option.map_eq_none_iff]
  intro out hout
  by_contra hso
  obtain ⟨p, hp⟩ := Option.ne_none_iff_exists'.1 hso
  exact List.countP_eq_zero.1 h out hout (isReissueAsset_of_reissueAssetFromScript hp)

theorem issuedNames_eq_nil (h : (getTxOutAssetTypes tx.vout).issues = 0) :
    issuedNames env tx = [] := by
  simp only [issuedNames, List.filterMap_eq_nil_iff, Option.map_eq_none_iff]
  intro out hout
  by_contra hso
  obtain ⟨p, hp⟩ := Option.ne_none_iff_exists'.1 hso
  exact List.countP_eq_zero.1 h out hout (isNewAsset_of_assetFromScript hp)

theorem transfersToken_iff : tx.transfersToken env name = true ↔
    name ∈ (transferredAssets env tx).map Prod.fst := by
  simp only [CTransaction.transfersToken, transferredAssets, transferredAsset, List.any_eq_true,
    Option.any_eq_true, decide_eq_true_eq, List.mem_map, List.mem_filterMap,
    Option.map_eq_some_iff]
  constructor
  · rintro ⟨out, hout, t, ht, rfl⟩
    exact ⟨_, ⟨out, hout, t, ht, rfl⟩, rfl⟩
  · rintro ⟨_, ⟨out, hout, t, ht, rfl⟩, rfl⟩
    exact ⟨out, hout, t, ht, rfl⟩

/-- The closing format check that the classes with one issue share. -/
theorem SingleIssue.of_counts {minOuts owners : Nat} (hp : 0 < minOuts)
    (hl : decide (tx.vout.length < minOuts) = false)
    (hla : assetFromScript env tx.lastScript = some (asset, address))
    (hc : (decide ((getTxOutAssetTypes tx.vout).owners ≠ owners) ||
      decide ((getTxOutAssetTypes tx.vout).issues ≠ 1) ||
      decide ((getTxOutAssetTypes tx.vout).reissues > 0)) = false) : SingleIssue env tx asset := by
  simp only [Bool.or_eq_false_iff, decide_eq_false_iff_not, not_lt, ne_eq, not_not] at hl hc
  refine ⟨?_, ⟨address, hla⟩, hc.1.2, by omega⟩
  intro hn
  simp only [hn, List.length_nil] at hl
  omega

theorem assetNameType_of_isScriptNewAssetOf {types : List AssetType}
    (h : isScriptNewAssetOf env types script = true)
    (ha : assetFromScript env script = some (asset, address)) :
    ∃ type ∈ types, assetNameType asset.strName = some type := by
  simp only [isScriptNewAssetOf, ha, Option.any_eq_true, List.contains_iff_mem] at h
  obtain ⟨type, ht, hm⟩ := h
  exact ⟨type, hm, ht⟩

theorem verifyNewAsset_ok (h : tx.verifyNewAsset env = .ok ()) : ∃ asset, SingleIssue env tx asset ∧
    (assetNameType asset.strName = some .sub →
      tx.transfersToken env (getParentName asset.strName ++ ownerTag) = true) := by
  simp only [CTransaction.verifyNewAsset, failIf_bind_eq_ok] at h
  obtain ⟨hl, -, -, h⟩ := h
  cases ha : assetFromScript env tx.lastScript with
  | none => simp [ha] at h
  | some p =>
    cases ho : ownerAssetFromScript env tx.ownerScript with
    | none => simp [ha, ho] at h
    | some q =>
      simp only [ha, ho, failIf_bind_eq_ok, failIf_eq_ok] at h
      obtain ⟨-, -, hsu, hc⟩ := h
      refine ⟨p.1, .of_counts (by decide) hl ha hc, fun ht => ?_⟩
      simpa [CTransaction.nameTypeOrInvalid, ht] using hsu

theorem verifyNewMsgChannelAsset_ok (h : tx.verifyNewMsgChannelAsset env = .ok ()) :
    ∃ asset, SingleIssue env tx asset ∧
      tx.transfersToken env (getParentName asset.strName ++ ownerTag) = true ∧
      assetNameType asset.strName = some .msgChannel := by
  simp only [CTransaction.verifyNewMsgChannelAsset, failIf_bind_eq_ok,
    msgChannelAssetFromScript] at h
  obtain ⟨hl, -, h⟩ := h
  split at h
  · simp at h
  next asset address ha =>
    split_ifs at ha with ht
    simp only [failIf_bind_eq_ok, failIf_eq_ok, Bool.not_eq_false'] at h
    obtain ⟨-, hto, hc⟩ := h
    obtain ⟨type, hm, ht⟩ := assetNameType_of_isScriptNewAssetOf ht ha
    rw [List.mem_singleton] at hm
    exact ⟨asset, .of_counts (by decide) hl ha hc, hto, hm ▸ ht⟩

theorem verifyNewQualfierAsset_ok (h : tx.verifyNewQualfierAsset env = .ok ()) :
    ∃ asset, SingleIssue env tx asset ∧ (assetNameType asset.strName = some .subQualifier →
        tx.transfersToken env (getParentName asset.strName) = true) ∧
      (assetNameType asset.strName = some .qualifier ∨
        assetNameType asset.strName = some .subQualifier) := by
  simp only [CTransaction.verifyNewQualfierAsset, failIf_bind_eq_ok, qualifierAssetFromScript] at h
  obtain ⟨hl, -, h⟩ := h
  split at h
  · simp at h
  next asset address ha =>
    split_ifs at ha with ht
    simp only [failIf_bind_eq_ok, failIf_eq_ok] at h
    obtain ⟨-, hto, hc⟩ := h
    obtain ⟨type, hm, ht⟩ := assetNameType_of_isScriptNewAssetOf ht ha
    refine ⟨asset, .of_counts (by decide) hl ha hc, fun hsu => ?_, ?_⟩
    · simpa [CTransaction.nameTypeOrInvalid, hsu] using hto
    · simpa [ht] using hm

theorem verifyNewRestrictedAsset_ok (h : tx.verifyNewRestrictedAsset env = .ok ()) :
    ∃ asset, SingleIssue env tx asset ∧
      tx.transfersToken env (asset.strName.drop 1 ++ ownerTag) = true ∧
      assetNameType asset.strName = some .restricted := by
  simp only [CTransaction.verifyNewRestrictedAsset, failIf_bind_eq_ok,
    restrictedAssetFromScript] at h
  obtain ⟨hl, -, h⟩ := h
  split at h
  · simp at h
  next asset address ha =>
    split_ifs at ha with ht
    simp only [failIf_bind_eq_ok, Bool.not_eq_false'] at h
    obtain ⟨-, hto, h⟩ := h
    obtain ⟨verifier, -, hc⟩ := bind_eq_ok.1 h
    obtain ⟨type, hm, ht⟩ := assetNameType_of_isScriptNewAssetOf ht ha
    rw [List.mem_singleton.1 hm] at ht
    cases verifier with
    | none => simp at hc
    | some v =>
      refine ⟨asset, .of_counts (by decide) hl ha (by simpa using hc), ?_, ht⟩
      simpa [getParentName, ht] using hto

theorem verifyReissueAsset_ok (h : tx.verifyReissueAsset env = .ok ()) :
    issuedNames env tx = [] ∧ ∀ name ∈ reissuedNames env tx,
      tx.transfersToken env (CTransaction.reissueOwnerName name) = true := by
  simp only [CTransaction.verifyReissueAsset, failIf_bind_eq_ok] at h
  obtain ⟨hl, -, h⟩ := h
  cases hreissue : reissueAssetFromScript env tx.lastScript with
  | none => simp [hreissue] at h
  | some p =>
    simp only [hreissue, failIf_bind_eq_ok, failIf_eq_ok, Bool.not_eq_false',
      Bool.or_eq_false_iff, decide_eq_false_iff_not, ne_eq, not_not] at h
    obtain ⟨ht, -, ⟨-, hr⟩, hissues⟩ := h
    refine ⟨issuedNames_eq_nil (by omega), fun name hname => ?_⟩
    simp only [reissuedNames, List.mem_filterMap, Option.map_eq_some_iff] at hname
    obtain ⟨out, hout, q, hq, rfl⟩ := hname
    have hne : tx.vout ≠ [] := List.ne_nil_of_mem hout
    have heq : q = p := eq_last_of_countP isReissueAsset
      (fun _ _ => isReissueAsset_of_reissueAssetFromScript) hr hne hreissue hout hq
    rw [heq]
    exact ht

/-- The unique outputs read so far share the root that was noted. -/
structure UniqueScanned (env : Env) (outs : List CTxOut) (scan : CTransaction.UniqueScan) :
    Prop where
  root : ∀ out ∈ outs, ∀ p, isScriptNewUniqueAsset env out.scriptPubKey = true →
    assetFromScript env out.scriptPubKey = some p → getParentName p.1.strName = scan.assetRoot
  count : scan.assetOutpointCount =
    outs.countP fun out => isScriptNewUniqueAsset env out.scriptPubKey

theorem uniqueScanned_step {outs : List CTxOut} {scan scan' : CTransaction.UniqueScan}
    (h : UniqueScanned env outs scan) (hstep : CTransaction.uniqueScanStep env scan out = .ok scan') :
    UniqueScanned env (outs ++ [out]) scan' := by
  by_cases hunique : isScriptNewUniqueAsset env out.scriptPubKey = true
  · cases ha : assetFromScript env out.scriptPubKey with
    | none => simp [CTransaction.uniqueScanStep, hunique, ha] at hstep
    | some p =>
      simp only [CTransaction.uniqueScanStep, hunique, ha, if_true, failIf_bind_eq_ok,
        pure_eq_ok, decide_eq_false_iff_not, ne_eq, not_not] at hstep
      obtain ⟨hr, -, rfl⟩ := hstep
      refine ⟨?_, by simp [List.countP_append, hunique, h.count]⟩
      intro o ho q hu hq
      rcases List.mem_append.1 ho with ho | ho
      · -- an earlier unique output has noted its root, and that root is not empty
        have hol := h.root o ho q hu hq
        have hne : scan.assetRoot ≠ [] := by
          obtain ⟨type, hm, ht⟩ := assetNameType_of_isScriptNewAssetOf hu hq
          rw [List.mem_singleton.1 hm] at ht
          exact hol ▸ getParentName_ne_nil_of_unique ht
        simp [hol, hne]
      · rw [List.mem_singleton.1 ho, ha, Option.some.injEq] at hq
        rw [← hq]
        exact hr.symm
  · simp only [CTransaction.uniqueScanStep, hunique, Bool.false_eq_true, if_false, pure_eq_ok]
      at hstep
    subst hstep
    refine ⟨?_, by simp [List.countP_append, hunique, h.count]⟩
    intro o ho q hu hq
    rcases List.mem_append.1 ho with ho | ho
    · exact h.root o ho q hu hq
    · rw [List.mem_singleton.1 ho] at hu
      exact absurd hu hunique

theorem of_countP_eq {p q : α → Bool} (hpq : ∀ a, q a → p a) (h : l.countP p = l.countP q)
    (ha : a ∈ l) (hp : p a) : q a = true := by
  have hsu : (l.filter q).Sublist (l.filter p) := List.monotone_filter_right l hpq
  rw [List.countP_eq_length_filter, List.countP_eq_length_filter] at h
  have hm : a ∈ l.filter p := List.mem_filter.2 ⟨ha, hp⟩
  rw [← hsu.eq_of_length h.symm] at hm
  exact (List.mem_filter.1 hm).2

/-- What the scan of a transaction with unique assets has found. -/
theorem exists_of_verifyNewUniqueAsset (h : tx.verifyNewUniqueAsset env = .ok ()) :
    ∃ scan, tx.vout.foldlM (CTransaction.uniqueScanStep env) {} = .ok scan ∧
      tx.transfersToken env (scan.assetRoot ++ ownerTag) = true ∧
      (getTxOutAssetTypes tx.vout).reissues = 0 ∧
      ∀ out ∈ tx.vout, ∀ p, assetFromScript env out.scriptPubKey = some p →
        isScriptNewUniqueAsset env out.scriptPubKey = true := by
  simp only [CTransaction.verifyNewUniqueAsset, failIf_bind_eq_ok] at h
  obtain ⟨-, h⟩ := h
  obtain ⟨scan, hsca, h⟩ := bind_eq_ok.1 h
  simp only [failIf_bind_eq_ok, failIf_eq_ok, Bool.not_eq_false', Bool.or_eq_false_iff,
    decide_eq_false_iff_not, ne_eq, not_not] at h
  obtain ⟨-, -, ht, ⟨-, hr⟩, hissues⟩ := h
  have hsc : UniqueScanned env tx.vout scan :=
    foldlM_invariant (UniqueScanned env) hsca ⟨by simp, rfl⟩ fun _ _ _ _ => uniqueScanned_step
  refine ⟨scan, hsca, ht, by omega, fun out hout p hp => ?_⟩
  refine of_countP_eq (q := fun out => isScriptNewUniqueAsset env out.scriptPubKey) (fun o ho => ?_)
    (hissues.trans hsc.count) hout (isNewAsset_of_assetFromScript hp)
  cases ha : assetFromScript env o.scriptPubKey with
  | none => simp [isScriptNewUniqueAsset, isScriptNewAssetOf, ha] at ho
  | some q => exact isNewAsset_of_assetFromScript ha

theorem verifyNewUniqueAsset_ok (h : tx.verifyNewUniqueAsset env = .ok ()) :
    reissuedNames env tx = [] ∧ ∀ name ∈ issuedNames env tx, assetNameType name = some .unique ∧
      tx.transfersToken env (getParentName name ++ ownerTag) = true := by
  obtain ⟨scan, hsca, ht, hr, ha⟩ := exists_of_verifyNewUniqueAsset h
  have hsc : UniqueScanned env tx.vout scan :=
    foldlM_invariant (UniqueScanned env) hsca ⟨by simp, rfl⟩ fun _ _ _ _ => uniqueScanned_step
  refine ⟨reissuedNames_eq_nil hr, fun name hname => ?_⟩
  simp only [issuedNames, List.mem_filterMap, Option.map_eq_some_iff] at hname
  obtain ⟨out, hout, p, hp, rfl⟩ := hname
  have hunique := ha out hout p hp
  obtain ⟨type, hm, hty⟩ := assetNameType_of_isScriptNewAssetOf hunique hp
  rw [hsc.root out hout p hunique hp]
  exact ⟨List.mem_singleton.1 hm ▸ hty, ht⟩

theorem names_eq_nil_of_checkPlainOut (h : ∀ out ∈ tx.vout, checkPlainOut out = .ok ()) :
    issuedNames env tx = [] ∧ reissuedNames env tx = [] := by
  have hki : ∀ out ∈ tx.vout, isNewAsset out.scriptPubKey = false ∧
      isReissueAsset out.scriptPubKey = false := by
    intro out hout
    have hout := h out hout
    cases hs : isAssetScript out.scriptPubKey with
    | none => simp [isNewAsset, isScriptNewAsset, isReissueAsset,
        isScriptReissueAsset, assetScriptOf, hs]
    | some s =>
      have ht : s.nType = .transferAsset := by
        simpa [checkPlainOut, hs, rejectIf] using hout
      simp [isNewAsset, isScriptNewAsset, isReissueAsset,
        isScriptReissueAsset, assetScriptOf, hs, ht]
  constructor
  · exact issuedNames_eq_nil (List.countP_eq_zero.2 fun out hout => by simp [(hki out hout).1])
  · exact reissuedNames_eq_nil (List.countP_eq_zero.2 fun out hout => by simp [(hki out hout).2])

variable (env)

/-- An issue routed to the verifier of plain issues, which asks for no token here. -/
structure UncheckedIssue (tx : CTransaction) (name : Str) : Prop where
  plain : tx.isNewAsset env = true
  issued : name ∈ issuedNames env tx
  type : assetNameType name = some .msgChannel ∨ assetNameType name = some .subQualifier

variable {env}

theorem verifyNewAsset_authority (hclass : tx.isNewAsset env = true)
    (h : tx.verifyNewAsset env = .ok ()) {token : Str} (hname : name ∈ issuedNames env tx)
    (hto : authorityToken name = some token) :
    tx.transfersToken env token = true ∨ UncheckedIssue env tx name := by
  obtain ⟨asset, hi, hsu⟩ := verifyNewAsset_ok h
  obtain rfl := hi.issued_eq hname
  obtain ⟨address, hl⟩ := hi.last
  -- the class excludes unique and restricted names
  have hn : ∀ type, assetNameType asset.strName = some type →
      type ≠ .unique ∧ type ≠ .restricted := by
    intro type ht
    simp only [CTransaction.isNewAsset, isScriptNewUniqueAsset, isScriptNewRestrictedAsset,
      isScriptNewAssetOf, hl, ht, Bool.and_eq_true, Bool.not_eq_true',
      Bool.or_eq_false_iff] at hclass
    simpa using hclass.2
  simp only [authorityToken] at hto
  split at hto
  next ht => exact .inl (Option.some.inj hto ▸ hsu ht)
  next ht => exact absurd rfl (hn _ ht).1
  next ht => exact .inr ⟨hclass, hname, .inl ht⟩
  next ht => exact .inr ⟨hclass, hname, .inr ht⟩
  next ht => exact absurd rfl (hn _ ht).2
  next => cases hto

/-- The verifier that a checked transaction was sent to; the first class that matches decides. -/
inductive Routed (env : Env) (tx : CTransaction) : Prop where
  | newAsset (hclass : tx.isNewAsset env = true) (hverify : tx.verifyNewAsset env = .ok ())
  | reissue (hnew : tx.isNewAsset env = false) (hclass : tx.isReissueAsset = true)
    (hverify : tx.verifyReissueAsset env = .ok ())
  | unique (hnew : tx.isNewAsset env = false) (hreissue : tx.isReissueAsset = false)
    (hclass : tx.isNewUniqueAsset env = true) (hverify : tx.verifyNewUniqueAsset env = .ok ())
  | msgChannel (hnew : tx.isNewAsset env = false) (hreissue : tx.isReissueAsset = false)
    (hunique : tx.isNewUniqueAsset env = false) (hclass : tx.isNewMsgChannelAsset env = true)
    (hverify : tx.verifyNewMsgChannelAsset env = .ok ())
  | qualifier (hnew : tx.isNewAsset env = false) (hreissue : tx.isReissueAsset = false)
    (hunique : tx.isNewUniqueAsset env = false) (hchannel : tx.isNewMsgChannelAsset env = false)
    (hclass : tx.isNewQualifierAsset env = true) (hverify : tx.verifyNewQualfierAsset env = .ok ())
  | restricted (hnew : tx.isNewAsset env = false) (hreissue : tx.isReissueAsset = false)
    (hunique : tx.isNewUniqueAsset env = false) (hchannel : tx.isNewMsgChannelAsset env = false)
    (hqualifier : tx.isNewQualifierAsset env = false) (hclass : tx.isNewRestrictedAsset env = true)
    (hverify : tx.verifyNewRestrictedAsset env = .ok ())
  | plain (hnew : tx.isNewAsset env = false) (hreissue : tx.isReissueAsset = false)
    (hunique : tx.isNewUniqueAsset env = false) (hchannel : tx.isNewMsgChannelAsset env = false)
    (hqualifier : tx.isNewQualifierAsset env = false) (hrestricted : tx.isNewRestrictedAsset env = false)
    (hplain : ∀ out ∈ tx.vout, checkPlainOut out = .ok ())

theorem routed_of_checkAssetClass (h : checkAssetClass env tx = .ok use) : Routed env tx := by
  unfold checkAssetClass at h
  split_ifs at h with hnew hreissue hunique hchannel hqualifier hrestricted
  · obtain ⟨_, hverify, -⟩ := bind_eq_ok.1 h
    exact .newAsset hnew (mapError_eq_ok.1 hverify)
  · obtain ⟨_, hverify, -⟩ := bind_eq_ok.1 h
    exact .reissue (eq_false_of_ne_true hnew) hreissue (mapError_eq_ok.1 hverify)
  · obtain ⟨_, hverify, -⟩ := bind_eq_ok.1 h
    exact .unique (eq_false_of_ne_true hnew) (eq_false_of_ne_true hreissue) hunique
      (mapError_eq_ok.1 hverify)
  · obtain ⟨_, hverify, -⟩ := bind_eq_ok.1 h
    exact .msgChannel (eq_false_of_ne_true hnew) (eq_false_of_ne_true hreissue)
      (eq_false_of_ne_true hunique) hchannel (mapError_eq_ok.1 hverify)
  · obtain ⟨_, hverify, -⟩ := bind_eq_ok.1 h
    exact .qualifier (eq_false_of_ne_true hnew) (eq_false_of_ne_true hreissue)
      (eq_false_of_ne_true hunique) (eq_false_of_ne_true hchannel) hqualifier
      (mapError_eq_ok.1 hverify)
  · obtain ⟨_, hverify, -⟩ := bind_eq_ok.1 h
    exact .restricted (eq_false_of_ne_true hnew) (eq_false_of_ne_true hreissue)
      (eq_false_of_ne_true hunique) (eq_false_of_ne_true hchannel) (eq_false_of_ne_true hqualifier)
      hrestricted (mapError_eq_ok.1 hverify)
  · obtain ⟨_, hplain, -⟩ := bind_eq_ok.1 h
    exact .plain (eq_false_of_ne_true hnew) (eq_false_of_ne_true hreissue)
      (eq_false_of_ne_true hunique) (eq_false_of_ne_true hchannel) (eq_false_of_ne_true hqualifier)
      (eq_false_of_ne_true hrestricted) (forM_eq_ok.1 hplain)

/-- Every routing of an accepted transaction asks for the token of what it creates, but for the
unchecked issues. -/
theorem checkAssetClass_authority (h : checkAssetClass env tx = .ok use) :
    (∀ name ∈ issuedNames env tx, ∀ token, authorityToken name = some token →
      tx.transfersToken env token = true ∨ UncheckedIssue env tx name) ∧
    ∀ name ∈ reissuedNames env tx,
      tx.transfersToken env (CTransaction.reissueOwnerName name) = true := by
  cases routed_of_checkAssetClass h with
  | newAsset hnew hverify =>
    obtain ⟨asset, hi, -⟩ := verifyNewAsset_ok hverify
    refine ⟨fun name hname token => verifyNewAsset_authority hnew hverify hname, ?_⟩
    simp [reissuedNames_eq_nil hi.reissues]
  | reissue _ _ hverify =>
    obtain ⟨his, hr⟩ := verifyReissueAsset_ok hverify
    exact ⟨by simp [his], hr⟩
  | unique _ _ _ hverify =>
    obtain ⟨hr, his⟩ := verifyNewUniqueAsset_ok hverify
    refine ⟨fun name hname token ht => .inl ?_, by simp [hr]⟩
    simp only [authorityToken, (his name hname).1, Option.some.injEq] at ht
    exact ht ▸ (his name hname).2
  | msgChannel _ _ _ _ hverify =>
    obtain ⟨asset, hi, htr, hty⟩ := verifyNewMsgChannelAsset_ok hverify
    refine ⟨fun name hname token ht => .inl ?_, by simp [reissuedNames_eq_nil hi.reissues]⟩
    obtain rfl := hi.issued_eq hname
    simp only [authorityToken, hty, Option.some.injEq] at ht
    exact ht ▸ htr
  | qualifier _ _ _ _ _ hverify =>
    obtain ⟨asset, hi, htr, hty⟩ := verifyNewQualfierAsset_ok hverify
    refine ⟨fun name hname token ht => .inl ?_, by simp [reissuedNames_eq_nil hi.reissues]⟩
    obtain rfl := hi.issued_eq hname
    rcases hty with hty | hty <;> simp only [authorityToken, hty] at ht
    · cases ht
    · exact Option.some.inj ht ▸ htr hty
  | restricted _ _ _ _ _ _ hverify =>
    obtain ⟨asset, hi, htr, hty⟩ := verifyNewRestrictedAsset_ok hverify
    refine ⟨fun name hname token ht => .inl ?_, by simp [reissuedNames_eq_nil hi.reissues]⟩
    obtain rfl := hi.issued_eq hname
    simp only [authorityToken, hty, Option.some.injEq] at ht
    exact ht ▸ htr
  | plain _ _ _ _ _ _ hplain =>
    obtain ⟨his, hr⟩ : issuedNames env tx = [] ∧ reissuedNames env tx = [] :=
      names_eq_nil_of_checkPlainOut hplain
    simp [his, hr]

variable (env)

/-- Every asset a transaction creates or reissues is covered by a token it spends. -/
structure Authorised (view : CCoinsViewCache) (tx : CTransaction) : Prop where
  issue : ∀ name ∈ issuedNames env tx, ∀ token, authorityToken name = some token →
    token ∈ (spentAssets env view tx).map Prod.fst
  reissue : ∀ name ∈ reissuedNames env tx,
    CTransaction.reissueOwnerName name ∈ (spentAssets env view tx).map Prod.fst

variable {env} {g : AssetGlobals} {cache : CAssetsCache} {view : CCoinsViewCache}

theorem routed_of_checkTransaction {fCheckDuplicateInputs fMempoolCheck fBlockCheck : Bool}
    (h : checkTransaction env tx fCheckDuplicateInputs fMempoolCheck fBlockCheck = .ok ()) :
    ∃ use, checkAssetClass env tx = .ok use := by
  simp only [checkTransaction, bind_eq_ok] at h
  obtain ⟨-, -, -, -, -, -, -, -, -, -, -, -, -, -, use, hclass, -⟩ := h
  exact ⟨use, hclass⟩

/-- The authority rule holds exactly when no message channel and no sub qualifier is issued
together with an owner output and without a transfer of its token. -/
theorem authorised_iff (h : Accepted env g cache view tx) :
    Authorised env view tx ↔ ∀ name, UncheckedIssue env tx name → ∀ token,
      authorityToken name = some token → tx.transfersToken env token = true := by
  obtain ⟨_, _, _, htx⟩ := h.transaction
  obtain ⟨use, hus⟩ := routed_of_checkTransaction htx
  obtain ⟨hi, hreissue⟩ := checkAssetClass_authority hus
  -- for an accepted transaction, transferring a token and spending it are the same
  have hsp : ∀ token, token ∈ (spentAssets env view tx).map Prod.fst ↔
      tx.transfersToken env token = true := fun token =>
    (h.mem_spent_iff token).trans transfersToken_iff.symm
  constructor
  · intro ha name hu token ht
    exact (hsp token).1 (ha.issue name hu.issued token ht)
  · intro hc
    refine ⟨fun name hname token ht => (hsp token).2 ?_,
      fun name hname => (hsp _).2 (hreissue name hname)⟩
    rcases hi name hname token ht with htr | hu
    · exact htr
    · exact hc name hu token ht

def sampleChannel : CNewAsset :=
  { strName := str "MUSIC~CHAT", nAmount := uniqueAssetAmount, units := uniqueAssetUnits }

/-- Burns the fee of a message channel and issues one, with an owner output in front of it. -/
def channelTx : CTransaction :=
  sampleTx [
    ⟨regTestParams.nIssueMsgChannelAssetBurnAmount, CScript.payToPubKeyHash channelBurnKey⟩,
    ⟨0, sampleChannel.constructOwnerTransaction sampleScript⟩,
    ⟨0, sampleChannel.constructTransaction sampleScript⟩]

/-- The only coin carries no asset at all. -/
def channelView : CCoinsViewCache := sampleView ⟨1000 * coin, sampleScript⟩

theorem accepted_channelTx :
    Accepted sampleEnv (sampleGlobals sampleMusic) {} channelView channelTx :=
  accepted_of_checks (by decide) (by decide +kernel) (by decide +kernel)

theorem authorised_iff_channelTx :
    Accepted sampleEnv (sampleGlobals sampleMusic) {} channelView channelTx ∧
      (Authorised sampleEnv channelView channelTx ↔
        ∀ name, UncheckedIssue sampleEnv channelTx name → ∀ token,
          authorityToken name = some token → channelTx.transfersToken sampleEnv token = true) :=
  ⟨accepted_channelTx, authorised_iff accepted_channelTx⟩

/-- The channel is issued although no input carries the owner token of its parent. -/
theorem channelTx_not_authorised :
    Accepted sampleEnv (sampleGlobals sampleMusic) {} channelView channelTx ∧
      issuedNames sampleEnv channelTx = [str "MUSIC~CHAT"] ∧
      authorityToken (str "MUSIC~CHAT") = some (str "MUSIC!") ∧
      spentAssets sampleEnv channelView channelTx = [] ∧
      ¬ Authorised sampleEnv channelView channelTx := by
  have hi : issuedNames sampleEnv channelTx = [str "MUSIC~CHAT"] := by decide +kernel
  have ht : authorityToken (str "MUSIC~CHAT") = some (str "MUSIC!") := by decide +kernel
  have hsp : spentAssets sampleEnv channelView channelTx = [] := by decide +kernel
  refine ⟨accepted_channelTx, hi, ht, hsp, fun h => ?_⟩
  have hm := h.issue (str "MUSIC~CHAT") (by simp [hi]) _ ht
  simp [hsp] at hm

end Cmusic
