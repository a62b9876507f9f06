import Cmusic.MempoolRuns

/-! The names that the transactions of the memory pool issue. -/
namespace Cmusic

open Fallible Std Pattern CScript Maps

/-- The name under which an output is entered in the map of new assets. -/
def trackedName (env : Env) (out : CTxOut) : Option Str :=
  (getAssetData env out.scriptPubKey).bind fun data =>
    if data.type = .newAsset && !isAssetNameAnOwner data.assetName then some data.assetName else none

def trackedNames (env : Env) (tx : CTransaction) : List Str := tx.vout.filterMap (trackedName env)

section Maps

variable {env : Env} {pool : CTxMemPool} {hash : UInt256} {out : CTxOut}

theorem maps_trackOut : (trackOut env hash pool out).mapAssetToHash =
      (trackedName env out).elim pool.mapAssetToHash (pool.mapAssetToHash.insert · hash) ∧
    (trackOut env hash pool out).mapHashToAsset =
      (trackedName env out).elim pool.mapHashToAsset (pool.mapHashToAsset.insert hash) := by
  unfold trackOut
  split
  · unfold trackAssetOut trackedName
    split
    next hn => simp [hn]
    next data hd =>
      rw [hd, Option.bind_some]
      by_cases hnew : (data.type = .newAsset && !isAssetNameAnOwner data.assetName) = true
      · rw [if_pos hnew, if_pos hnew]
        split <;> exact ⟨rfl, rfl⟩
      · rw [if_neg hnew, if_neg hnew]
        split <;> exact ⟨rfl, rfl⟩
  next ha =>
    have hn : isAssetScript out.scriptPubKey = none := by simpa using ha
    have ht : trackedName env out = none := by simp [trackedName, getAssetData, hn]
    rw [ht]
    split
    · exact ⟨rfl, rfl⟩
    next request _ => cases request <;> exact ⟨rfl, rfl⟩

/-- The loop over the outputs enters the names one after the other. -/
theorem maps_foldl_trackOut (vout : List CTxOut) (pool : CTxMemPool) :
    (vout.foldl (trackOut env hash) pool).mapAssetToHash =
      (vout.filterMap (trackedName env)).foldl (fun m name => m.insert name hash)
        pool.mapAssetToHash ∧
    (vout.foldl (trackOut env hash) pool).mapHashToAsset =
      (vout.filterMap (trackedName env)).foldl (fun m name => m.insert hash name)
        pool.mapHashToAsset := by
  induction vout generalizing pool with
  | nil => exact ⟨rfl, rfl⟩
  | cons out vout ih =>
    obtain ⟨hn, hh⟩ := ih (trackOut env hash pool out)
    rw [List.foldl_cons, hn, hh, maps_trackOut.1, maps_trackOut.2]
    cases ht : trackedName env out with
    | none => simp [ht]
    | some name => simp [ht]

theorem getElem?_foldl_insert_name (names : List Str) (m : StrMap UInt256) (name : Str) :
    (names.foldl (fun m name => m.insert name hash) m)[name]? =
      if name ∈ names then some hash else m[name]? := by
  induction names generalizing m with
  | nil => simp
  | cons other names ih =>
    rw [List.foldl_cons, ih, getElem?_insert_eq]
    by_cases hm : name ∈ names <;> simp [hm]

theorem getElem?_foldl_insert_hash (names : List Str) (m : TreeMap UInt256 Str) (k : UInt256) :
    (names.foldl (fun m name => m.insert hash name) m)[k]? =
      if k = hash then names.getLast? <|> m[k]? else m[k]? := by
  induction names generalizing m with
  | nil => simp
  | cons name names ih =>
    rw [List.foldl_cons, ih, getElem?_insert_eq]
    by_cases hk : k = hash
    · cases names with
      | nil => simp [hk]
      | cons other names => simp [hk, List.getLast?_eq_some_getLast]
    · simp [hk]

end Maps

section OwnerNames

theorem last_of_matches {cls : UInt8 → Bool} {k : Nat} (as : List (Atom UInt8)) {w : Str}
    (h : Matches (as ++ [atLeast (k + 1) cls]) w) : ∃ pre c, w = pre ++ [c] ∧ cls c = true := by
  induction as generalizing w with
  | nil =>
    obtain ⟨u, v, rfl, hu, hv⟩ := matches_cons.1 h
    obtain ⟨hcl, hl⟩ := accepts_atLeast.1 hu
    have hne : u ≠ [] := List.ne_nil_of_length_pos (by omega)
    rw [matches_nil.1 hv, List.append_nil]
    exact ⟨u.dropLast, u.getLast hne, (List.dropLast_append_getLast hne).symm,
      hcl _ (List.getLast_mem hne)⟩
  | cons a as ih =>
    obtain ⟨u, v, rfl, -, hv⟩ := matches_cons.1 h
    obtain ⟨pre, c, rfl, hc⟩ := ih hv
    exact ⟨u ++ pre, c, (List.append_assoc u pre [c]).symm, hc⟩

theorem exists_eq_append_getLast_splitOn (delim : UInt8) (w : Str) :
    ∃ pre part, part ∈ w.splitOn delim ∧ w = pre ++ part := by
  have hj : ∀ parts : List Str, parts ≠ [] →
      ∃ pre part, part ∈ parts ∧ List.intercalate [delim] parts = pre ++ part := by
    intro parts hne
    induction parts with
    | nil => exact (hne rfl).elim
    | cons part parts ih =>
      cases parts with
      | nil => exact ⟨[], part, List.mem_singleton_self part, by simp [List.intercalate]⟩
      | cons next parts =>
        obtain ⟨pre, last, hm, heq⟩ := ih (List.cons_ne_nil _ _)
        refine ⟨part ++ [delim] ++ pre, last, List.mem_cons_of_mem _ hm, ?_⟩
        rw [List.append_assoc, ← heq]
        simp [List.intercalate]
  obtain ⟨pre, part, hm, heq⟩ := hj (w.splitOn delim) (List.splitOn_ne_nil delim w)
  exact ⟨pre, part, hm, (List.intercalate_splitOn delim).symm.trans heq⟩

theorem last_of_isNameValidBeforeTag {w : Str} (h : isNameValidBeforeTag w = true) :
    ∃ pre c, w = pre ++ [c] ∧ isNameChar c = true := by
  have hpa : ∀ part ∈ w.splitOn subNameDelimiter,
      ∃ pre c, part = pre ++ [c] ∧ isNameChar c = true := by
    obtain ⟨first, rest, hsp⟩ :=
      List.exists_cons_of_ne_nil (List.splitOn_ne_nil subNameDelimiter w)
    simp only [isNameValidBeforeTag, frontPart, hsp, List.headD_cons, List.tail_cons,
      Bool.and_eq_true, List.all_eq_true] at h
    obtain ⟨hr, hsu⟩ := h
    intro part hp
    rw [hsp, List.mem_cons] at hp
    rcases hp with rfl | hp
    · simp only [isRootNameValid, Bool.and_eq_true] at hr
      exact last_of_matches [] hr.1.1.1.1
    · have hvalid := hsu part hp
      simp only [isSubNameValid, Bool.and_eq_true] at hvalid
      exact last_of_matches [] hvalid.1.1.1
  obtain ⟨pre, part, hm, heq⟩ := exists_eq_append_getLast_splitOn subNameDelimiter w
  obtain ⟨init, c, rfl, hc⟩ := hpa part hm
  exact ⟨pre ++ init, c, heq.trans (List.append_assoc pre init [c]).symm, hc⟩

/-- A valid name that ends in the tag of owner tokens is the name of one. -/
theorem isAssetNameAnOwner_of_ok {name : Str} (h : isAssetNameOk (name ++ ownerTag) = true) :
    isAssetNameAnOwner (name ++ ownerTag) = true := by
  have hl : ∀ {cls : UInt8 → Bool},
      (∃ pre c, name ++ ownerTag = pre ++ [c] ∧ cls c = true) → cls 33 = true := by
    rintro cls ⟨pre, c, heq, hc⟩
    obtain ⟨-, hcha⟩ := List.append_inj' heq rfl
    obtain rfl : (33 : UInt8) = c := by simpa [ownerTag, str] using hcha
    exact hc
  rw [isAssetNameAnOwner, h, Bool.true_and]
  by_contra hno
  obtain ⟨type, ht⟩ := Option.isSome_iff_exists.1 h
  rw [assetNameType_eq_some, isAssetNameValid] at ht
  split at ht
  · cases ht
  · obtain ⟨_, hch, -⟩ := bind_eq_ok.1 ht
    unfold indicatedType at hch
    -- every other shape ends in a character that is not the tag
    split_ifs at hch with hunique hchannel hv hqualifier hsu hrestricted hsub
    · exact absurd (hl (last_of_matches [_, _] hunique)) (by decide)
    · exact absurd (hl (last_of_matches [_, _] hchannel)) (by decide)
    · exact absurd (hl (last_of_matches [_, _] hv)) (by decide)
    · exact absurd (hl (last_of_matches [_] hqualifier)) (by decide)
    · exact absurd (hl (last_of_matches [_, _, _, _] hsu)) (by decide)
    · exact absurd (hl (last_of_matches [_] hrestricted)) (by decide)
    all_goals
      simp only [isTypeCheckNameValid, failIf_bind_eq_ok, failIf_eq_ok, Bool.not_eq_false'] at hch
      exact absurd (hl (last_of_isNameValidBeforeTag hch.2.2.2)) (by decide)

end OwnerNames

section Classes

variable {env : Env} {tx : CTransaction} {out : CTxOut} {name : Str}

theorem trackedName_of_assetFromScript {asset : CNewAsset} {address : Str}
    (h : assetFromScript env out.scriptPubKey = some (asset, address))
    (hname : isAssetNameAnOwner asset.strName = false) : trackedName env out = some asset.strName := by
  have hnew := isNewAsset_of_assetFromScript h
  unfold isNewAsset isScriptNewAsset assetScriptOf at hnew
  split at hnew
  next s hs =>
    split_ifs at hnew with hki
    · obtain ⟨nType, fIsOwner, nStartingIndex⟩ := s
      simp only [Bool.and_eq_true, decide_eq_true_eq] at hki
      obtain ⟨rfl, rfl⟩ := hki
      simp [trackedName, getAssetData, hs, h, hname]
    · cases hnew
  · cases hnew

/-- A name is entered for an issue, or for an owner token whose name is not one. -/
theorem trackedName_eq_some (h : trackedName env out = some name) :
    ((assetFromScript env out.scriptPubKey).map (·.1.strName) = some name ∨
      ∃ address, ownerAssetFromScript env out.scriptPubKey = some (name, address)) ∧
    isAssetNameAnOwner name = false := by
  obtain ⟨data, hd, hname⟩ := Option.bind_eq_some_iff.1 h
  split_ifs at hname with hnew
  cases hname
  simp only [Bool.and_eq_true, decide_eq_true_eq, Bool.not_eq_true'] at hnew
  refine ⟨?_, hnew.2⟩
  unfold getAssetData at hd
  split at hd
  · obtain ⟨⟨asset, address⟩, ha, rfl⟩ := Option.map_eq_some_iff.1 hd
    exact Or.inl (by rw [ha]; rfl)
  · obtain ⟨⟨t, address⟩, -, rfl⟩ := Option.map_eq_some_iff.1 hd
    cases hnew.1
  · obtain ⟨⟨assetName, address⟩, ho, rfl⟩ := Option.map_eq_some_iff.1 hd
    exact Or.inr ⟨address, ho⟩
  · obtain ⟨⟨r, address⟩, -, rfl⟩ := Option.map_eq_some_iff.1 hd
    cases hnew.1
  · cases hd

theorem isOwnerAsset_of_ownerAssetFromScript {script : CScript} {p : Str × Str}
    (h : ownerAssetFromScript env script = some p) : isOwnerAsset script = true := by
  cases hs : isScriptOwnerAsset script with
  | none => simp [ownerAssetFromScript, hs] at h
  | some n => simp [isOwnerAsset, hs]

/-- The owner output of an issue carries the name of the asset with the tag. -/
theorem ownerName_of_verifyNewAsset (h : tx.verifyNewAsset env = .ok ()) (hout : out ∈ tx.vout)
    {address : Str} (how : ownerAssetFromScript env out.scriptPubKey = some (name, address)) :
    ∃ assetName, name = assetName ++ ownerTag := by
  simp only [CTransaction.verifyNewAsset, failIf_bind_eq_ok] at h
  obtain ⟨hle, -, hki, h⟩ := h
  split at h
  · cases h
  · split at h
    · cases h
    next ownerName ownerAddress hsc =>
      simp only [failIf_bind_eq_ok, failIf_eq_ok, Bool.or_eq_false_iff, decide_eq_false_iff_not,
        ne_eq, not_not] at h
      obtain ⟨hname, -, -, ⟨ho, -⟩, -⟩ := h
      have hf : tx.vout.dropLast ≠ [] := by
        intro hn
        have hl := congrArg List.length hn
        simp only [List.length_dropLast, List.length_nil, decide_eq_false_iff_not] at hl hle
        omega
      have hm : tx.vout.dropLast.getLast hf ∈ tx.vout :=
        List.dropLast_subset _ (List.getLast_mem hf)
      have hs' : (tx.vout.dropLast.getLast hf).scriptPubKey = tx.ownerScript := by
        simp [CTransaction.ownerScript, List.getLast?_eq_some_getLast hf]
      have heq : out = tx.vout.dropLast.getLast hf := by
        refine eq_of_countP_eq_one ho hout (isOwnerAsset_of_ownerAssetFromScript how) hm ?_
        rw [hs']
        exact isOwnerAsset_of_ownerAssetFromScript hsc
      rw [heq, hs', hsc] at how
      cases how
      exact ⟨_, hname⟩

theorem owners_eq_zero_of_routed (h : Routed env tx) (hclass : tx.isNewAsset env = false) :
    (getTxOutAssetTypes tx.vout).owners = 0 := by
  cases h with
  | newAsset hnew _ => rw [hclass] at hnew; cases hnew
  | reissue _ _ hverify | msgChannel _ _ _ _ hverify | qualifier _ _ _ _ _ hverify =>
    simp only [CTransaction.verifyReissueAsset, CTransaction.verifyNewMsgChannelAsset,
      CTransaction.verifyNewQualfierAsset, failIf_bind_eq_ok] at hverify
    obtain ⟨-, -, hverify⟩ := hverify
    split at hverify
    · cases hverify
    · simp only [failIf_bind_eq_ok, failIf_eq_ok, Bool.or_eq_false_iff, decide_eq_false_iff_not] at hverify
      omega
  | unique _ _ _ hverify =>
    simp only [CTransaction.verifyNewUniqueAsset, failIf_bind_eq_ok] at hverify
    obtain ⟨-, hverify⟩ := hverify
    obtain ⟨scan, -, hverify⟩ := bind_eq_ok.1 hverify
    simp only [failIf_bind_eq_ok, failIf_eq_ok, Bool.or_eq_false_iff, decide_eq_false_iff_not] at hverify
    omega
  | restricted _ _ _ _ _ _ hverify =>
    simp only [CTransaction.verifyNewRestrictedAsset, failIf_bind_eq_ok] at hverify
    obtain ⟨-, -, hverify⟩ := hverify
    split at hverify
    · cases hverify
    · simp only [failIf_bind_eq_ok] at hverify
      obtain ⟨-, -, hverify⟩ := hverify
      obtain ⟨verifier, -, hverify⟩ := bind_eq_ok.1 hverify
      cases verifier with
      | none => cases hverify
      | some verifier =>
        simp only [failIf_eq_ok, Bool.or_eq_false_iff, decide_eq_false_iff_not] at hverify
        omega
  | plain _ _ _ _ _ _ hplain =>
    refine List.countP_eq_zero.2 fun out hout => ?_
    have hc := hplain out hout
    cases hs : isAssetScript out.scriptPubKey with
    | none => simp [isOwnerAsset, isScriptOwnerAsset, assetScriptOf, hs]
    | some s =>
      have ht : s.nType = .transferAsset := by
        simpa [checkPlainOut, hs, rejectIf] using hc
      simp [isOwnerAsset, isScriptOwnerAsset, assetScriptOf, hs, ht]

/-- A transaction that issues does so in its last output. -/
theorem last_of_routed (h : Routed env tx) : issuedNames env tx = [] ∧ tx.isNewAsset env = false ∨
      ∃ out p, tx.vout.getLast? = some out ∧ assetFromScript env out.scriptPubKey = some p := by
  have hr : ∀ {p}, assetFromScript env tx.lastScript = some p →
      ∃ out p, tx.vout.getLast? = some out ∧ assetFromScript env out.scriptPubKey = some p := by
    intro p hp
    cases hl : tx.vout.getLast? with
    | none =>
      rw [CTransaction.lastScript, hl] at hp
      cases hp
    | some out =>
      rw [CTransaction.lastScript, hl] at hp
      exact ⟨out, p, rfl, hp⟩
  have hsi : ∀ {asset}, SingleIssue env tx asset →
      ∃ out p, tx.vout.getLast? = some out ∧ assetFromScript env out.scriptPubKey = some p := by
    intro asset hi
    obtain ⟨address, hl⟩ := hi.last
    exact hr hl
  cases h with
  | newAsset _ hverify =>
    obtain ⟨asset, hi, -⟩ := verifyNewAsset_ok hverify
    exact Or.inr (hsi hi)
  | reissue hnew _ hverify => exact Or.inl ⟨(verifyReissueAsset_ok hverify).1, hnew⟩
  | unique _ _ hunique _ =>
    have ht := (Bool.and_eq_true_iff.1 hunique).2
    unfold isScriptNewUniqueAsset isScriptNewAssetOf at ht
    split at ht
    next ha => exact Or.inr (hr ha)
    · cases ht
  | msgChannel _ _ _ _ hverify =>
    obtain ⟨asset, hi, -⟩ := verifyNewMsgChannelAsset_ok hverify
    exact Or.inr (hsi hi)
  | qualifier _ _ _ _ _ hverify =>
    obtain ⟨asset, hi, -⟩ := verifyNewQualfierAsset_ok hverify
    exact Or.inr (hsi hi)
  | restricted _ _ _ _ _ _ hverify =>
    obtain ⟨asset, hi, -⟩ := verifyNewRestrictedAsset_ok hverify
    exact Or.inr (hsi hi)
  | plain hnew _ _ _ _ _ hplain => exact Or.inl ⟨(names_eq_nil_of_checkPlainOut hplain).1, hnew⟩

/-- Besides the names of its issues a transaction enters only names with the tag of owner tokens. -/
theorem issued_or_tagged (h : Routed env tx) (hname : name ∈ trackedNames env tx) :
    name ∈ issuedNames env tx ∨ ∃ assetName, name = assetName ++ ownerTag := by
  obtain ⟨out, hout, ht⟩ := List.mem_filterMap.1 hname
  rcases (trackedName_eq_some ht).1 with hi | ⟨address, ho⟩
  · exact Or.inl (List.mem_filterMap.2 ⟨out, hout, hi⟩)
  · cases hclass : tx.isNewAsset env with
    | true =>
      cases h with
      | newAsset _ hverify => exact Or.inr (ownerName_of_verifyNewAsset hverify hout ho)
      | _ => simp_all
    | false =>
      have hz := List.countP_eq_zero.1 (owners_eq_zero_of_routed h hclass) out hout
      exact (hz (isOwnerAsset_of_ownerAssetFromScript ho)).elim

/-- The name that is entered last is the name of an issue. -/
theorem getLast?_trackedNames (h : Routed env tx)
    (hvalid : ∀ name ∈ issuedNames env tx, isAssetNameAnOwner name = false)
    (hl : (trackedNames env tx).getLast? = some name) : name ∈ issuedNames env tx := by
  rcases last_of_routed h with ⟨hn, hclass⟩ | ⟨out, p, hg, hp⟩
  · obtain ⟨out, hout, ht⟩ := List.mem_filterMap.1 (List.mem_of_getLast? hl)
    rcases (trackedName_eq_some ht).1 with hi | ⟨address, ho⟩
    · exact List.mem_filterMap.2 ⟨out, hout, hi⟩
    · have hz := List.countP_eq_zero.1 (owners_eq_zero_of_routed h hclass) out hout
      exact (hz (isOwnerAsset_of_ownerAssetFromScript ho)).elim
  · have hm : p.1.strName ∈ issuedNames env tx :=
      List.mem_filterMap.2 ⟨out, List.mem_of_getLast? hg, by rw [hp]; rfl⟩
    have ht : trackedName env out = some p.1.strName :=
      trackedName_of_assetFromScript hp (hvalid _ hm)
    obtain ⟨vout, hv⟩ := List.getLast?_eq_some_iff.1 hg
    rw [trackedNames, hv, List.filterMap_append, List.filterMap_cons_some ht] at hl
    simp only [List.filterMap_nil, List.getLast?_append, List.getLast?_singleton, Option.some_or,
      Option.some.injEq] at hl
    exact hl ▸ hm

end Classes

theorem issuedNames_env (env env' : Env) (tx : CTransaction) :
    issuedNames env tx = issuedNames env' tx := by
  refine List.filterMap_congr fun out _ => ?_
  unfold assetFromScript
  cases isScriptNewAsset out.scriptPubKey with
  | none => rfl
  | some n =>
    rw [Option.bind_eq_bind, Option.bind_some, Option.bind_eq_bind, Option.bind_some]
    cases decode CNewAsset.unserialize (out.scriptPubKey.drop n) <;> rfl

namespace CTxMemPool

/-- The entries are found under the names they issue, except for one that is just being stored. -/
structure NamesTracked (env : Env) (storing : Option UInt256) (pool : CTxMemPool) : Prop where
  issued : ∀ (hash : UInt256) (tx : CTransaction), pool.mapTx[hash]? = some tx →
    storing ≠ some hash → ∀ name ∈ issuedNames env tx,
      isAssetNameOk name = true ∧ isAssetNameAnOwner name = false ∧
        pool.mapAssetToHash[name]? = some hash
  named : ∀ (hash : UInt256) (name : Str), pool.mapHashToAsset[hash]? = some name →
    storing ≠ some hash ∧ ∃ tx, pool.mapTx[hash]? = some tx ∧ name ∈ issuedNames env tx

section

variable {env : Env} {storing : Option UInt256} {pool pool' : CTxMemPool} {hash : UInt256}
  {tx : CTransaction} {name : Str}

/-- The name maps after the loss of an entry. -/
theorem maps_eraseRestricted (hash : UInt256) (tx : CTransaction) :
    ((((pool.eraseEntry hash tx).unlockReissue hash).eraseAssetName hash).eraseRestricted
      hash).mapAssetToHash =
      (pool.mapHashToAsset[hash]?).elim pool.mapAssetToHash (pool.mapAssetToHash.erase ·) ∧
    ((((pool.eraseEntry hash tx).unlockReissue hash).eraseAssetName hash).eraseRestricted
      hash).mapHashToAsset = (pool.mapHashToAsset[hash]?).elim pool.mapHashToAsset
        (fun _ => pool.mapHashToAsset.erase hash) ∧
    ((((pool.eraseEntry hash tx).unlockReissue hash).eraseAssetName hash).eraseRestricted
      hash).mapTx = pool.mapTx.erase hash := by
  have hu : ((pool.eraseEntry hash tx).unlockReissue hash).mapAssetToHash = pool.mapAssetToHash ∧
      ((pool.eraseEntry hash tx).unlockReissue hash).mapHashToAsset = pool.mapHashToAsset ∧
      ((pool.eraseEntry hash tx).unlockReissue hash).mapTx = pool.mapTx.erase hash := by
    unfold unlockReissue
    split
    · exact ⟨rfl, rfl, rfl⟩
    · split <;> exact ⟨rfl, rfl, rfl⟩
  unfold eraseRestricted eraseAssetName
  rw [hu.2.1]
  cases pool.mapHashToAsset[hash]? with
  | none => exact hu
  | some name => exact ⟨by simp [hu.1], by simp, hu.2.2⟩

theorem keptByRemoval_namesTracked (env : Env) (storing : Option UInt256) :
    KeptByRemoval (NamesTracked env storing) where
  links _ _ h := ⟨h.issued, h.named⟩
  entry pool hash tx htx h := by
    obtain ⟨hna, hha, he⟩ := @maps_eraseRestricted pool hash tx
    have hsta : ∀ k t, (pool.mapTx.erase hash)[k]? = some t → k ≠ hash ∧ pool.mapTx[k]? = some t := by
      intro k t hg
      rw [TreeMap.getElem?_erase] at hg
      split at hg
      · cases hg
      next hne => exact ⟨fun heq => hne (by simp [heq]), hg⟩
    constructor
    · intro k t hg hst n hn
      rw [he] at hg
      obtain ⟨hne, hg⟩ := hsta k t hg
      obtain ⟨hok, ho, hf⟩ := h.issued k t hg hst n hn
      refine ⟨hok, ho, ?_⟩
      rw [hna]
      cases hname : pool.mapHashToAsset[hash]? with
      | none => exact hf
      | some name =>
        -- the erased name is issued by the lost entry, so it is not the one at hand
        obtain ⟨hot, t', ht', hi⟩ := h.named hash name hname
        rw [Option.elim_some, getElem?_erase_eq, if_neg, hf]
        rintro rfl
        have hh := (h.issued hash t' ht' hot n hi).2.2
        rw [hf] at hh
        exact hne (Option.some.inj hh)
    · intro k n hg
      have hol : k ≠ hash ∧ pool.mapHashToAsset[k]? = some n := by
        rw [hha] at hg
        cases hname : pool.mapHashToAsset[hash]? with
        | none =>
          rw [hname, Option.elim_none] at hg
          refine ⟨fun heq => ?_, hg⟩
          rw [heq, hname] at hg
          cases hg
        | some name =>
          rw [hname, Option.elim_some, getElem?_erase_eq] at hg
          split at hg
          · cases hg
          next hne => exact ⟨hne, hg⟩
      obtain ⟨hst, t, ht, hi⟩ := h.named k n hol.2
      refine ⟨hst, t, ?_, hi⟩
      rw [he, getElem?_erase_of_ne hol.1, ht]

/-- The part of the pool that the names of new assets concern. -/
def nameMaps (pool : CTxMemPool) : TreeMap UInt256 CTransaction × StrMap UInt256 × TreeMap UInt256 Str :=
  (pool.mapTx, pool.mapAssetToHash, pool.mapHashToAsset)

theorem nameMaps_foldl {α : Type} {step : CTxMemPool → α → CTxMemPool}
    (h : ∀ q a, (step q a).nameMaps = q.nameMaps) (items : List α) (pool : CTxMemPool) :
    (items.foldl step pool).nameMaps = pool.nameMaps :=
  KeptByRemoval.foldl (P := fun q => q.nameMaps = pool.nameMaps) (fun q a hq => (h q a).trans hq)
    items rfl

theorem nameMaps_trackInput {tip : CCoinsViewCache} (txin : CTxIn) :
    (trackInput env tip hash pool txin).nameMaps = pool.nameMaps := by
  unfold trackInput
  dsimp only
  split
  · rfl
  · split
    · rfl
    · split <;> rfl

theorem mapTx_foldl_trackOut (vout : List CTxOut) (pool : CTxMemPool) :
    (vout.foldl (trackOut env hash) pool).mapTx = pool.mapTx := by
  refine KeptByRemoval.foldl (P := fun q => q.mapTx = pool.mapTx) (fun q out hq => ?_) vout rfl
  unfold trackOut
  split
  · unfold trackAssetOut
    split
    · exact hq
    · dsimp only
      split <;> split <;> exact hq
  · split
    · exact hq
    next request _ => cases request <;> exact hq

/-- The name maps and the entries once a transaction is indexed. -/
theorem nameMaps_indexed (env : Env) (tip : CCoinsViewCache) (pool : CTxMemPool)
    (reissues : List (Str × UInt256)) (hplain : env.areAssetsDeployed = false → trackedNames env tx = []) :
    (indexed env tip pool tx reissues).nameMaps = (pool.mapTx,
      (trackedNames env tx).foldl (fun m name => m.insert name tx.hash) pool.mapAssetToHash,
      (trackedNames env tx).foldl (fun m name => m.insert tx.hash name) pool.mapHashToAsset) := by
  have hn : (reissues.foldl noteReissued pool).nameMaps = pool.nameMaps :=
    @nameMaps_foldl _ noteReissued (fun _ _ => rfl) reissues pool
  have ho : (if env.areAssetsDeployed then
      tx.vout.foldl (trackOut env tx.hash) (reissues.foldl noteReissued pool)
      else reissues.foldl noteReissued pool).nameMaps = (pool.mapTx,
        (trackedNames env tx).foldl (fun m name => m.insert name tx.hash) pool.mapAssetToHash,
        (trackedNames env tx).foldl (fun m name => m.insert tx.hash name) pool.mapHashToAsset) := by
    simp only [nameMaps, Prod.mk.injEq] at hn
    cases hd : env.areAssetsDeployed with
    | true =>
      obtain ⟨hna, hh⟩ := @maps_foldl_trackOut env tx.hash tx.vout
        (reissues.foldl noteReissued pool)
      rw [if_pos rfl, nameMaps, mapTx_foldl_trackOut, hna, hh, hn.1, hn.2.1, hn.2.2, trackedNames]
    | false =>
      rw [if_neg (by decide), hplain hd, nameMaps, hn.1, hn.2.1, hn.2.2]
      rfl
  unfold indexed
  dsimp only
  split
  · exact (nameMaps_foldl (fun _ txin => nameMaps_trackInput txin) tx.vin _).trans ho
  · exact ho

end
end CTxMemPool

section
variable {env : Env} {tx : CTransaction} {call : AcceptCall} {data : AcceptData} {pool : CTxMemPool} {name : Str}

/-- The names that a stored transaction issues are valid, and the pool knows none of them unless the
transaction issues unique assets. -/
theorem AcceptCall.Checks.issued (h : call.Checks pool data)
    (hname : name ∈ issuedNames call.env call.tx) :
    isAssetNameOk name = true ∧ isAssetNameAnOwner name = false ∧
      (name ∈ pool.mapAssetToHash → call.tx.isNewUniqueAsset call.env = true) := by
  obtain ⟨use, hclass⟩ := routed_of_checkTransaction h.transaction
  rw [(issuedNames_of_checkAssetClass hclass).1] at hname
  obtain ⟨action, hm, hac⟩ := List.mem_filterMap.1 hname
  cases action with
  | verifier assetName stored removed => cases hac
  | reissue reissue verifier => cases hac
  | issue asset address =>
    cases hac
    cases hd : call.env.areAssetsDeployed with
    | false =>
      rw [assetActions_of_noAssetOuts (h.plain hd).1] at hm
      cases hm
    | true =>
      obtain ⟨_, -, ha⟩ := bind_eq_ok.1 (h.assets hd)
      obtain ⟨_, -, ha⟩ := bind_eq_ok.1 ha
      obtain ⟨_, -, ha⟩ := bind_eq_ok.1 ha
      obtain ⟨_, hco, -⟩ := bind_eq_ok.1 ha
      obtain ⟨-, fCheck, hc, hfl⟩ := exists_of_contextualCheckAssetClass hco hm
      obtain ⟨_, -, hc⟩ := bind_eq_ok.1 hc
      obtain ⟨_, hnew, hc⟩ := bind_eq_ok.1 hc
      obtain ⟨-, hc⟩ := failIf_bind_eq_ok.1 hc
      obtain ⟨hf, -⟩ := failIf_bind_eq_ok.1 hc
      have hch := newAssetChecked_of_checkNewAsset hnew
      refine ⟨hch.name, hch.notOwner, fun hkn => hfl.resolve_left fun heq => ?_⟩
      rw [heq, Bool.true_and, ← Bool.not_eq_true, TreeMap.contains_iff_mem] at hf
      exact hf hkn

namespace CTxMemPool

variable {pool' : CTxMemPool} {hash : UInt256}

theorem keptByRemoval_notMem_mapAssetToHash (name : Str) :
    KeptByRemoval fun pool => name ∉ pool.mapAssetToHash where
  links _ _ h := h
  entry pool hash tx _ h := by
    rw [(maps_eraseRestricted hash tx).1]
    cases pool.mapHashToAsset[hash]? with
    | none => exact h
    | some other => exact fun hm => h (TreeMap.mem_of_mem_erase hm)

theorem keptByRemoval_entry (hash : UInt256) (tx : CTransaction) :
    KeptByRemoval fun pool => ∀ t, pool.mapTx[hash]? = some t → t = tx where
  links _ _ h := h
  entry pool k t _ h t' ht' := by
    rw [(maps_eraseRestricted k t).2.2, TreeMap.getElem?_erase] at ht'
    split at ht'
    · cases ht'
    · exact h t' ht'

end CTxMemPool

/-- A stored transaction is the entry under its id. -/
theorem AcceptCall.Checks.entry (h : call.Checks pool data)
    (hm : call.tx.hash ∈ (storeTransaction call.policy call.bypassLimits pool call.tx
      data.allConflicting).mapTx) :
    (storeTransaction call.policy call.bypassLimits pool call.tx
      data.allConflicting).mapTx[call.tx.hash]? = some call.tx := by
  have hnew : call.tx.hash ∉ (pool.removeStaged data.allConflicting).mapTx := by
    intro hm
    exact h.new (CTxMemPool.mem_removeStaged.1 hm).1
  have ha : ∀ t, ((pool.removeStaged data.allConflicting).addUnchecked call.tx).mapTx[call.tx.hash]? =
      some t → t = call.tx := by
    intro t ht
    rw [CTxMemPool.getElem?_addUnchecked hnew, if_pos rfl] at ht
    exact (Option.some.inj ht).symm
  obtain ⟨t, ht⟩ := exists_getElem? hm
  rw [ht]
  have hke := CTxMemPool.keptByRemoval_entry call.tx.hash call.tx
  have heq : t = call.tx := hke.storeTransaction hke call.policy call.bypassLimits
    (fun _ => ha) (fun t ht => (h.new (mem_of_getElem? ht)).elim)
    t ht
  rw [heq]

namespace CTxMemPool

variable {pool' : CTxMemPool}

theorem NamesTracked.store (h : pool.NamesTracked env none) (hst : call.Stored pool pool' data) :
    (storeTransaction call.policy call.bypassLimits pool call.tx
      data.allConflicting).NamesTracked env (some call.tx.hash) := by
  refine (keptByRemoval_namesTracked env none).storeTransaction (keptByRemoval_namesTracked env _)
    call.policy call.bypassLimits (fun hr => ?_) h
  have hnew : call.tx.hash ∉ (pool.removeStaged data.allConflicting).mapTx := by
    intro hm
    exact hst.parts.new (mem_removeStaged.1 hm).1
  constructor
  · intro hash tx htx hne
    have ho : hash ≠ call.tx.hash := fun heq => hne (heq ▸ rfl)
    rw [getElem?_addUnchecked hnew, if_neg ho] at htx
    exact hr.issued hash tx htx (by simp)
  · intro hash name hname
    obtain ⟨-, tx, htx, hi⟩ := hr.named hash name hname
    have ho : hash ≠ call.tx.hash := by
      rintro rfl
      exact hnew (mem_of_getElem? htx)
    refine ⟨fun heq => ho (Option.some.inj heq).symm, tx, ?_, hi⟩
    rw [getElem?_addUnchecked hnew, if_neg ho, htx]

theorem mem_trackedNames (hname : name ∈ issuedNames env tx) (ho : isAssetNameAnOwner name = false) :
    name ∈ trackedNames env tx := by
  obtain ⟨out, hout, hi⟩ := List.mem_filterMap.1 hname
  obtain ⟨⟨asset, address⟩, ha, rfl⟩ := Option.map_eq_some_iff.1 hi
  exact List.mem_filterMap.2 ⟨out, hout, trackedName_of_assetFromScript ha ho⟩

theorem trackedNames_of_noAssetOuts (h : NoAssetOuts tx) : trackedNames env tx = [] := by
  refine List.filterMap_eq_nil_iff.2 fun out hout => ?_
  simp [trackedName, getAssetData, h out hout]

/-- A stored transaction is found under the names it issues, and so are the others as before. -/
theorem NamesTracked.accept (h : pool.NamesTracked env none) (hsto : call.Stored pool pool' data)
    (hfre : call.tx.isNewUniqueAsset call.env = true →
      ∀ name ∈ issuedNames call.env call.tx, name ∉ pool.mapAssetToHash) :
    pool'.NamesTracked env none := by
  have hst := h.store hsto
  have he := hsto.parts.entry hsto.mem
  have hc := hsto.parts
  obtain ⟨use, hclass⟩ := routed_of_checkTransaction hc.transaction
  have hr := routed_of_checkAssetClass hclass
  have hfr : ∀ name ∈ issuedNames call.env call.tx, name ∉ (storeTransaction call.policy
      call.bypassLimits pool call.tx data.allConflicting).mapAssetToHash := by
    intro name hname
    have hnot : name ∉ pool.mapAssetToHash := by
      intro hme
      exact hfre ((hc.issued hname).2.2 hme) name hname hme
    have hke := keptByRemoval_notMem_mapAssetToHash name
    exact hke.storeTransaction hke call.policy call.bypassLimits (fun hre => hre) hnot
  have hi := nameMaps_indexed call.env call.tip (storeTransaction call.policy call.bypassLimits
      pool call.tx data.allConflicting) data.vReissueAssets
    fun hof => trackedNames_of_noAssetOuts (hc.plain hof).1
  rw [← indexTransaction_eq_ok hsto.index] at hi
  simp only [nameMaps, Prod.mk.injEq] at hi
  obtain ⟨hm, hna, hha⟩ := hi
  generalize storeTransaction call.policy call.bypassLimits pool call.tx data.allConflicting = stored
    at hst he hfr hm hna hha
  constructor
  · intro hash tx htx _ name hname
    rw [hm] at htx
    rw [hna, getElem?_foldl_insert_name]
    by_cases hh : hash = call.tx.hash
    · subst hh
      obtain rfl := Option.some.inj (he.symm.trans htx)
      rw [issuedNames_env env call.env] at hname
      obtain ⟨hok, ho, -⟩ := hc.issued hname
      exact ⟨hok, ho, if_pos (mem_trackedNames hname ho)⟩
    · obtain ⟨hok, ho, hf⟩ := hst.issued hash tx htx (fun heq => hh (Option.some.inj heq).symm)
        name hname
      refine ⟨hok, ho, ?_⟩
      rw [if_neg, hf]
      intro ht
      rcases issued_or_tagged hr ht with his | ⟨assetName, rfl⟩
      · exact hfr name his (mem_of_getElem? hf)
      · rw [isAssetNameAnOwner_of_ok hok] at ho
        cases ho
  · intro hash name hname
    refine ⟨by simp, ?_⟩
    rw [hm]
    rw [hha, getElem?_foldl_insert_hash] at hname
    by_cases hh : hash = call.tx.hash
    · subst hh
      have hno : stored.mapHashToAsset[call.tx.hash]? = none := by
        by_contra hso
        obtain ⟨other, hot⟩ := Option.ne_none_iff_exists'.1 hso
        exact (hst.named _ other hot).1 rfl
      have hl : (trackedNames call.env call.tx).getLast? = some name := by simpa [hno] using hname
      refine ⟨call.tx, he, ?_⟩
      rw [issuedNames_env env call.env]
      exact getLast?_trackedNames hr (fun n hn => (hc.issued hn).2.1) hl
    · rw [if_neg hh] at hname
      exact (hst.named hash name hname).2

/-- The unique assets an accepted transaction issues are new to the map of names; for the other kinds
of assets the check sees to that. -/
def NewUniqueNames (pool : CTxMemPool) : PoolEvent → Prop
  | .accept call => call.tx.isNewUniqueAsset call.env = true →
      ∀ name ∈ issuedNames call.env call.tx, name ∉ pool.mapAssetToHash
  | _ => True

theorem namesTracked_reachable (h : Reachable NewUniqueNames pool) : pool.NamesTracked env none := by
  refine h.invariant ⟨?_, ?_⟩ (keptByRemoval_namesTracked env none) ?_ ?_ ?_
  · simp
  · simp
  · intro q t hq
    unfold releaseReissue
    split
    · exact hq
    · exact ⟨hq.issued, hq.named⟩
  · intro q hq _
    exact ⟨by simp [clear], by simp [clear]⟩
  · intro q q' call data hq hallowed hst
    exact hq.accept hst hallowed

/-- No two transactions of the pool issue the same name, as long as unique assets come with new
names. -/
theorem Reachable.issuedNames_disjoint (h : Reachable NewUniqueNames pool) (env : Env)
    {hash hash' : UInt256} {tx tx' : CTransaction} (htx : pool.mapTx[hash]? = some tx)
    (htx' : pool.mapTx[hash']? = some tx') (hne : tx ≠ tx') {name : Str}
    (hname : name ∈ issuedNames env tx) : name ∉ issuedNames env tx' := by
  intro hn'
  have ht : pool.NamesTracked env none := namesTracked_reachable h
  have hf := (ht.issued hash tx htx (by simp) name hname).2.2
  have hf' := (ht.issued hash' tx' htx' (by simp) name hn').2.2
  obtain rfl := Option.some.inj (hf.symm.trans hf')
  exact hne (Option.some.inj (htx.symm.trans htx'))

end CTxMemPool

end

/-- A call without limits of its own. -/
def sampleCall (env : Env) (g : AssetGlobals) (base : TreeMap COutPoint Coin) (tx : CTransaction) :
    AcceptCall where
  policy := openPolicy
  env
  g
  tip := { base }
  nSpendHeight := 10
  bypassLimits := false
  testAccept := false
  tx

def uniqueBurnKey : Str :=
  [221, 163, 210, 23, 174, 41, 183, 59, 161, 61, 41, 20, 41, 202, 212, 60, 209, 34, 117, 98]

def uniqueEnv : Env := burnEnv uniqueBurnKey [39, 151, 57, 73]

def uniqueAsset (strName : Str) : CNewAsset :=
  { strName, nAmount := 100000000, units := 0, nReissuable := 0 }

/-- An issue of a unique asset that spends a coin and the owner token, burns half a coin and gives
change. -/
def uniqueTx (hash : UInt256) (coinIn ownerIn : COutPoint) (change : CAmount) (strName : Str) :
    CTransaction where
  hash
  nVersion := 2
  vin := [⟨coinIn, [], 0xffffffff⟩, ⟨ownerIn, [], 0xffffffff⟩]
  vout := [⟨50000000, CScript.payToPubKeyHash uniqueBurnKey⟩, ⟨change, sampleScript⟩, sampleOwner,
    ⟨0, (uniqueAsset strName).constructTransaction sampleScript⟩]
  nLockTime := 0

def firstIssue : CTransaction :=
  uniqueTx 31 sampleOutPoint ownerOutPoint (900 * coin) (str "MUSIC#ONE")

/-- An issue that spends the change and the owner token of the first one. -/
def secondIssue (strName : Str) : CTransaction :=
  uniqueTx 32 ⟨31, 1⟩ ⟨31, 2⟩ (800 * coin) strName

def acceptUnique (tx : CTransaction) : PoolEvent :=
  .accept (sampleCall uniqueEnv ownedGlobals ownedBase tx)

/-- Two unique assets with the same parent. -/
theorem issuedNames_disjoint_uniqueAssets :
    ∃ pool, [acceptUnique firstIssue, acceptUnique (secondIssue (str "MUSIC#TWO"))].foldlM
        CTxMemPool.step {} = some pool ∧
      ∃ tx tx', pool.mapTx[(31 : UInt256)]? = some tx ∧ pool.mapTx[(32 : UInt256)]? = some tx' ∧
        str "MUSIC#ONE" ∈ issuedNames uniqueEnv tx ∧ str "MUSIC#ONE" ∉ issuedNames uniqueEnv tx' := by
  have hr : ((CTxMemPool.step {} (acceptUnique firstIssue)).any fun first =>
      (issuedNames uniqueEnv (secondIssue (str "MUSIC#TWO"))).all (· ∉ first.mapAssetToHash) &&
      (first.step (acceptUnique (secondIssue (str "MUSIC#TWO")))).any fun pool =>
        pool.mapTx[(31 : UInt256)]? = some firstIssue &&
        pool.mapTx[(32 : UInt256)]? = some (secondIssue (str "MUSIC#TWO"))) = true := by
    decide +kernel
  obtain ⟨first, hfirst, he⟩ := (Option.any_eq_true _ _).1 hr
  obtain ⟨hn, he⟩ := Bool.and_eq_true_iff.1 he
  obtain ⟨pool, hp, he⟩ := (Option.any_eq_true _ _).1 he
  simp only [Bool.and_eq_true, decide_eq_true_eq, List.all_eq_true] at he hn
  have hreach : CTxMemPool.Reachable CTxMemPool.NewUniqueNames pool := by
    have hfresh : CTxMemPool.NewUniqueNames {} (acceptUnique firstIssue) :=
      fun _ _ _ => TreeMap.not_mem_emptyc
    exact .step (acceptUnique _) (.step _ .empty hfresh hfirst) (fun _ => hn) hp
  have hm : str "MUSIC#ONE" ∈ issuedNames uniqueEnv firstIssue := by decide +kernel
  refine ⟨pool, ?_, _, _, he.1, he.2, hm, ?_⟩
  · simp [hfirst, hp]
  · exact hreach.issuedNames_disjoint uniqueEnv he.1 he.2 (by decide +kernel) hm

/-- Two transactions of the pool issue the same unique asset. -/
theorem acceptUnique_issue_twice :
    ([acceptUnique firstIssue, acceptUnique (secondIssue (str "MUSIC#ONE"))].foldlM
      CTxMemPool.step {}).any (fun pool =>
      (pool.mapTx[(31 : UInt256)]?).any (fun tx => str "MUSIC#ONE" ∈ issuedNames uniqueEnv tx) &&
      (pool.mapTx[(32 : UInt256)]?).any (fun tx => str "MUSIC#ONE" ∈ issuedNames uniqueEnv tx)) =
      true := by
  decide +kernel

end Cmusic
