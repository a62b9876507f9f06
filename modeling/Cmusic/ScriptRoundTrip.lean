import Cmusic.Conservation
import Cmusic.QualifierNames

/-! The scripts built for asset payloads and verifier strings, read back. -/
namespace Cmusic

open CScript CNewAsset

section Payloads

/-- The hash fields that are written in full: none, a transaction id, or an IPFS hash. -/
def WrittenHash (hash : Str) : Prop :=
  hash = [] ∨ hash.length = 32 ∨ ∃ digest, digest.length = 32 ∧ hash = ipfsSha2 :: ipfsSha2Len :: digest

variable {rest hash : Str} {asset : CNewAsset} {reissue : CReissueAsset} {transfer : CAssetTransfer}

/-- A hash is read back together with the flag that it was there. -/
theorem reads_readAssetHash (h : WrittenHash hash) (hre : hash = [] → rest.length < 33) :
    Reads readAssetHash (writeAssetHash hash) rest (decide (hash ≠ []), hash) := by
  -- the notifier byte and the string behind it
  have hr : ∀ (b : UInt8) (digest : Str), digest.length = 32 →
      readAssetHash (b :: writeString digest ++ rest) =
        some ((true, (if b = ipfsSha2 then [ipfsSha2, ipfsSha2Len] else []) ++ digest), rest) := by
    intro b digest hd
    have hl : (b :: writeString digest ++ rest).length ≥ 33 := by
      simp [writeString, hd, length_writeCompactSize]
      omega
    have hst : readString (writeString digest ++ rest) = some (digest, rest) :=
      reads_readString (by omega)
    have hb : readBytes 1 (b :: (writeString digest ++ rest)) =
        some ([b], writeString digest ++ rest) := by
      simp [readBytes]
    unfold readAssetHash
    rw [if_pos hl, List.cons_append]
    simp only [bind, StateT.bind, hb, hst, Option.bind_some, pure,
      List.take_of_length_le (Nat.le_of_eq hd), List.cons.injEq, and_true]
    rfl
  unfold Reads
  rcases h with rfl | hid | ⟨digest, hd, rfl⟩
  · have hsh : ¬rest.length ≥ 33 := Nat.not_le.2 (hre rfl)
    change (if rest.length ≥ 33 then _ else some ((false, []), rest)) = _
    rw [if_neg hsh]
    rfl
  · have hne : hash ≠ [] := by
      rintro rfl
      simp at hid
    rw [writeAssetHash, if_neg (by omega), if_pos hid, hr txidNotifier hash hid, decide_eq_true hne]
    rfl
  · rw [writeAssetHash, if_pos (by simp [hd])]
    exact hr ipfsSha2 digest hd

theorem length_writeAssetHash (hash : Str) : (writeAssetHash hash).length ≤ 34 := by
  unfold writeAssetHash
  split
  next h => simp [writeString, length_writeCompactSize, h]
  · split
    next h => simp [writeString, length_writeCompactSize, h]
    · simp

/-- The fields of an asset that its serialization keeps. -/
structure CNewAsset.Written (asset : CNewAsset) : Prop where
  name : asset.strName.length ≤ maxNameLength
  hash : WrittenHash asset.strIPFSHash
  flag : asset.nHasIPFS = 1 ↔ asset.strIPFSHash ≠ []

theorem reads_newAsset (h : asset.Written) : Reads unserialize asset.serialize rest asset := by
  have hname := h.name
  unfold maxNameLength at hname
  unfold serialize unserialize
  simp only [List.append_assoc]
  refine (reads_readString (by omega)).bind ((reads_readInt64 _).bind ((reads_readInt8 _).bind
    ((reads_readInt8 _).bind ((reads_readInt8 _).bind ?_))))
  by_cases hf : asset.nHasIPFS = 1
  · have hne := h.flag.1 hf
    have hr : Reads readAssetHash (writeAssetHash asset.strIPFSHash) rest
        (decide (asset.strIPFSHash ≠ []), asset.strIPFSHash) :=
      reads_readAssetHash h.hash fun he => absurd he hne
    rw [if_pos hf, if_pos hf, map_eq_pure_bind, bind_assoc]
    simp only [pure_bind]
    exact hr.bind_pure
  · have he : asset.strIPFSHash = [] := by
      by_contra hne
      exact hf (h.flag.2 hne)
    have hsa : { asset with strIPFSHash := [] } = asset := by rw [← he]
    rw [if_neg hf, if_neg hf, pure_bind]
    change Reads (pure { asset with strIPFSHash := [] }) [] rest asset
    rw [hsa]
    exact Reads.pure asset

theorem length_newAsset (h : asset.Written) : asset.serialize.length ≤ 77 := by
  have hname := h.name
  have hh := length_writeAssetHash asset.strIPFSHash
  unfold maxNameLength at hname
  simp only [serialize, writeInt64, writeInt8, List.length_append, length_writeLE,
    length_writeString (s := asset.strName) (by omega)]
  split
  · omega
  · simp
    omega

/-- The fields of a reissue that its serialization keeps. -/
structure CReissueAsset.Written (reissue : CReissueAsset) : Prop where
  name : reissue.strName.length ≤ maxNameLength
  hash : WrittenHash reissue.strIPFSHash

theorem reads_reissueAsset (h : reissue.Written) (hr : rest.length < 33) :
    Reads CReissueAsset.unserialize reissue.serialize rest reissue := by
  have hname := h.name
  unfold maxNameLength at hname
  unfold CReissueAsset.serialize CReissueAsset.unserialize
  simp only [List.append_assoc]
  refine (reads_readString (by omega)).bind ((reads_readInt64 _).bind ((reads_readInt8 _).bind
    ((reads_readInt8 _).bind ?_)))
  exact (reads_readAssetHash h.hash fun _ => hr).bind_pure

theorem length_reissueAsset (h : reissue.Written) : reissue.serialize.length ≤ 76 := by
  have hname := h.name
  have hh := length_writeAssetHash reissue.strIPFSHash
  unfold maxNameLength at hname
  simp only [CReissueAsset.serialize, writeInt64, writeInt8, List.length_append, length_writeLE,
    length_writeString (s := reissue.strName) (by omega)]
  omega

/-- The fields of a transfer that its serialization keeps. -/
structure CAssetTransfer.Written (transfer : CAssetTransfer) : Prop where
  name : transfer.strName.length ≤ maxNameLength
  message : WrittenHash transfer.message
  expire : transfer.message = [] → transfer.nExpireTime = 0

theorem reads_assetTransfer (h : transfer.Written) (hre : rest.length < 8) :
    Reads CAssetTransfer.unserialize transfer.serialize rest transfer := by
  have hname := h.name
  unfold maxNameLength at hname
  unfold CAssetTransfer.serialize CAssetTransfer.unserialize
  simp only [List.append_assoc]
  refine (reads_readString (by omega)).bind ((reads_readInt64 _).bind
    ((reads_readAssetHash h.message ?_).bind ?_))
  · intro he
    rw [he]
    simp
    omega
  · have hl : transfer.message ≠ [] →
        (transfer.message.length = 34 ∨ transfer.message.length = 32) := by
      intro hne
      rcases h.message with he | hid | ⟨digest, hd, hm⟩
      · exact absurd he hne
      · exact Or.inr hid
      · rw [hm]
        exact Or.inl (by simp [hd])
    have hr : Reads (CAssetTransfer.readExpireTime (decide (transfer.message ≠ [])))
        (if (transfer.message.length = 34 ∨ transfer.message.length = 32) ∧ transfer.nExpireTime ≠ 0
          then writeInt64 transfer.nExpireTime else []) rest transfer.nExpireTime := by
      by_cases hex : transfer.nExpireTime = 0
      · have hsh : ¬((decide (transfer.message ≠ []) && decide (8 ≤ rest.length)) = true) := by
          rw [decide_eq_false (Nat.not_le.2 hre), Bool.and_false]
          exact Bool.false_ne_true
        rw [if_neg fun hw => hw.2 hex, hex]
        unfold Reads CAssetTransfer.readExpireTime
        rw [List.nil_append, if_neg hsh]
      · have hne : transfer.message ≠ [] := fun he => hex (h.expire he)
        have hlo : (decide (transfer.message ≠ []) &&
            decide (8 ≤ (writeInt64 transfer.nExpireTime ++ rest).length)) = true := by
          rw [decide_eq_true hne, List.length_append, writeInt64, length_writeLE]
          simp
        rw [if_pos ⟨hl hne, hex⟩]
        unfold Reads CAssetTransfer.readExpireTime
        rw [if_pos hlo]
        exact reads_readInt64 _
    exact hr.bind_pure

theorem length_assetTransfer (h : transfer.Written) : transfer.serialize.length ≤ 82 := by
  have hname := h.name
  have hh := length_writeAssetHash transfer.message
  unfold maxNameLength at hname
  simp only [CAssetTransfer.serialize, List.length_append, length_writeLE, writeInt64,
    length_writeString (s := transfer.strName) (by omega)]
  split
  · rw [length_writeLE]
    omega
  · simp
    omega

end Payloads

section Hashes

variable {env : Env} {hash : Str}

/-- `EncodeAssetData`, the text that `CheckEncoded` looks at. -/
def encodeAssetData (decoded : Str) : Str :=
  if decoded.length = 34 then encodeBase58 decoded
  else if decoded.length = 32 then CTxOut.hexStr decoded
  else []

/-- The hash, and so its text, comes back from each kind of payload it is written in. -/
structure HashKept (hash : Str) : Prop where
  newAsset : ∀ asset : CNewAsset, asset.strName.length ≤ maxNameLength → asset.nHasIPFS = 1 →
    asset.strIPFSHash = hash → ∃ read, decode CNewAsset.unserialize asset.serialize = some read ∧
      read.strIPFSHash = hash ∧ encodeAssetData read.strIPFSHash = encodeAssetData hash
  reissueAsset : ∀ reissue : CReissueAsset, reissue.strName.length ≤ maxNameLength →
    reissue.strIPFSHash = hash → ∃ read, decode CReissueAsset.unserialize reissue.serialize = some read ∧
      read.strIPFSHash = hash ∧ encodeAssetData read.strIPFSHash = encodeAssetData hash
  assetTransfer : ∀ transfer : CAssetTransfer, transfer.strName.length ≤ maxNameLength →
    transfer.message = hash → ∃ read, decode CAssetTransfer.unserialize transfer.serialize = some read ∧
      read.message = hash ∧ encodeAssetData read.message = encodeAssetData hash

theorem decode_eq {α : Type} {reader : Reader α} {a : α} {payload rest : Str}
    (h : Reads reader payload rest a) : decode reader (payload ++ rest) = some a := by
  rw [decode, h]
  rfl

theorem decode_self {α : Type} {reader : Reader α} {a : α} {payload : Str}
    (h : Reads reader payload [] a) : decode reader payload = some a := by
  simpa using decode_eq h

theorem hashKept_of_written (h : WrittenHash hash) (hne : hash ≠ []) : HashKept hash where
  newAsset asset hname hf heq := by
    subst heq
    exact ⟨asset, decode_self (reads_newAsset ⟨hname, h, fun _ => hne, fun _ => hf⟩), rfl, rfl⟩
  reissueAsset reissue hname heq := by
    subst heq
    exact ⟨reissue, decode_self (reads_reissueAsset ⟨hname, h⟩ (by simp)), rfl, rfl⟩
  assetTransfer transfer hname heq := by
    subst heq
    exact ⟨transfer, decode_self (reads_assetTransfer ⟨hname, h, fun he => absurd he hne⟩ (by simp)),
      rfl, rfl⟩

/-- The first two bytes of a longer hash are not written, and read back as those of an IPFS hash. -/
theorem writeAssetHash_ipfs (h : hash.length = 34) :
    writeAssetHash hash = writeAssetHash (ipfsSha2 :: ipfsSha2Len :: hash.drop 2) := by
  simp [writeAssetHash, h]

/-- An accepted hash survives the wire exactly when it is a transaction id or starts with the two bytes
of an IPFS hash. -/
theorem hashKept_iff (haccepted : checkEncoded env hash = .ok ()) :
    HashKept hash ↔ hash.length = 32 ∨ hash.take 2 = [ipfsSha2, ipfsSha2Len] := by
  have hl : hash.length = 34 ∨ hash.length = 32 := by
    by_contra ho
    rw [not_or] at ho
    simp [checkEncoded, Fallible.failIf, ho.1, ho.2, str] at haccepted
  have hne : hash ≠ [] := by
    rintro rfl
    simp at hl
  rcases hl with hlo | hid
  · have hd : (hash.drop 2).length = 32 := by rw [List.length_drop, hlo]
    have hi : WrittenHash (ipfsSha2 :: ipfsSha2Len :: hash.drop 2) := Or.inr (Or.inr ⟨_, hd, rfl⟩)
    constructor
    · intro hke
      obtain ⟨read, hr, hsa, -⟩ := hke.reissueAsset { strIPFSHash := hash } (Nat.zero_le _) rfl
      have hw := decode_self (@reads_reissueAsset []
        { strIPFSHash := ipfsSha2 :: ipfsSha2Len :: hash.drop 2 } ⟨Nat.zero_le _, hi⟩ (by simp))
      rw [CReissueAsset.serialize, writeAssetHash_ipfs hlo] at hr
      rw [CReissueAsset.serialize, hr] at hw
      rw [← hsa, Option.some.inj hw]
      exact Or.inr rfl
    · intro hf
      have hf : hash.take 2 = [ipfsSha2, ipfsSha2Len] := hf.resolve_left (by omega)
      refine hashKept_of_written (Or.inr (Or.inr ⟨_, hd, ?_⟩)) hne
      rw [← List.take_append_drop 2 hash, hf]
      simp
  · exact iff_of_true (hashKept_of_written (Or.inr (Or.inl hid)) hne) (Or.inl hid)

/-- The largest first bytes of a text that starts with `Qm`. -/
def sampleHash : Str := [0x12, 0x21] ++ List.replicate 32 0

theorem hashKept_iff_sampleHash : ¬HashKept sampleHash := by
  rw [@hashKept_iff sampleEnv _ (by decide +kernel)]
  decide

/-- The text of the hash is accepted, but its second byte is another one when it is read back. -/
theorem sampleHash_changed : checkEncoded sampleEnv sampleHash = .ok () ∧
    (decode CReissueAsset.unserialize (CReissueAsset.serialize { strIPFSHash := sampleHash })).map
      (·.strIPFSHash) = some ([0x12, 0x20] ++ List.replicate 32 0) := by
  decide +kernel

end Hashes

section Scripts

variable {env : Env} {hash payload : Str} {type : UInt8} {built : CScript}

theorem length_payToPubKeyHash (h : hash.length = 20) : (payToPubKeyHash hash).length = 25 := by
  simp [payToPubKeyHash, pushData, opPushData1, h]

theorem byteAt_append {front : CScript} {n : Nat} (h : front.length = n) (back : CScript) (i : Nat) :
    byteAt (front ++ back) (n + i) = byteAt back i := by
  simp only [byteAt, List.getD_eq_getElem?_getD, ← h]
  rw [List.getElem?_append_right (Nat.le_add_right _ _), Nat.add_sub_cancel_left]

/-- The script of a payload that needs at most one length byte. A push of 114 bytes is out, because
its length byte looks like the start of the marker. -/
theorem constructAsset_cases (hl : payload.length < 110) (script : CScript) :
    ∃ push, (∃ size, push = [size] ∨ size ≠ cmusicaiN ∧ push = [opPushData1, size]) ∧
      constructAsset type payload script = script ++ opCmusicaiAsset :: (push ++
        cmusicaiN :: cmusicaiE :: cmusicaiX :: type :: (payload ++ [opDrop])) := by
  have hsi : ([cmusicaiN, cmusicaiE, cmusicaiX, type] ++ payload).length = payload.length + 4 := by
    simp
  unfold constructAsset pushData
  rw [hsi]
  by_cases hsh : payload.length + 4 < opPushData1.toNat
  · refine ⟨_, ⟨(payload.length + 4).toUInt8, Or.inl rfl⟩, ?_⟩
    rw [if_pos hsh]
    simp
  · refine ⟨_, ⟨(payload.length + 4).toUInt8, Or.inr ⟨?_, rfl⟩⟩, ?_⟩
    · intro heq
      have hn := congrArg UInt8.toNat heq
      change (payload.length + 4).toUInt8.toNat = 114 at hn
      rw [toNat_toUInt8] at hn
      omega
    · rw [if_neg hsh, if_pos (by omega)]
      simp

/-- What `IsAssetScript` reports for a type byte and the index behind it. -/
def assetScriptFor (type : UInt8) (long : Bool) (index : Nat) : Option CScript.AssetScript :=
  if type = cmusicaiT then some ⟨.transferAsset, false, index⟩
  else if type = cmusicaiQ && long then some ⟨.newAsset, false, index⟩
  else if type = cmusicaiO then some ⟨.newAsset, true, index⟩
  else if type = cmusicaiN then some ⟨.reissueAsset, false, index⟩
  else none

/-- The marker of a constructed script is where `IsAssetScript` looks for it, and the payload is
behind the type byte. -/
theorem isAssetScript_constructAsset {script : CScript} (h : script.length = 25)
    (hle : payload.length < 110) (hb : built = constructAsset type payload script) :
    payload.length + 31 < built.length ∧ ∃ index, built.drop index = payload ++ [opDrop] ∧
      isAssetScript built = assetScriptFor type (built.length > 39) index := by
  obtain ⟨push, hp, hsc⟩ := @constructAsset_cases payload type hle script
  rw [← hb] at hsc
  have hpo : 1 ≤ push.length := by
    rcases hp with ⟨size, rfl | ⟨-, rfl⟩⟩ <;> simp
  have hl : payload.length + 31 < built.length := by
    rw [hsc]
    simp [h]
    omega
  refine ⟨hl, 25 + (push.length + 5), ?_, ?_⟩
  · rw [hsc, ← h, List.drop_length_add_append]
    simp
  · have hi : assetMarkerIndex built = some (25 + (push.length + 4)) ∧
        byteAt built 25 = opCmusicaiAsset ∧ byteAt built (25 + (push.length + 4)) = type := by
      rw [hsc]
      unfold assetMarkerIndex
      rw [byteAt_append h _ 2, byteAt_append h _ 3, byteAt_append h _ 4, byteAt_append h _ 5,
        byteAt_append h _ 0, byteAt_append h]
      rcases hp with ⟨size, rfl | ⟨hne, rfl⟩⟩
      · exact ⟨rfl, rfl, rfl⟩
      · exact ⟨if_neg hne, rfl, rfl⟩
    have hsi : built.length > 31 := by omega
    rw [isAssetScript, hi.2.1, hi.1, decide_eq_true hsi]
    dsimp only
    rw [hi.2.2]
    rfl

/-- The address of a constructed script is that of the payment script in front. -/
theorem scriptAddress_constructAsset {found : CScript.AssetScript} (h : hash.length = 20)
    (hb : built = constructAsset type payload (payToPubKeyHash hash))
    (hl : 31 < built.length) (hsc : isAssetScript built = some found)
    (ht : found.nType = .newAsset ∨ found.nType = .reissueAsset ∨ found.nType = .transferAsset) :
    scriptAddress env built = encodeDestination env (.keyID hash) := by
  have hkey : (built.drop 3).take 20 = hash := by
    simp [hb, constructAsset, payToPubKeyHash, pushData, opPushData1, h]
  have hso : solver built = some (found.nType, [hash]) := by
    have hn : isPayToScriptHash built = false := by
      rw [isPayToScriptHash, decide_eq_false (by omega)]
      rfl
    rw [solver, hn, hsc, hkey]
    rfl
  rw [scriptAddress, extractDestination, hso]
  rcases ht with ht | ht | ht <;> rw [ht] <;> rfl

/-- What a decoder finds in a constructed script. -/
theorem decode_constructAsset {α : Type} {reader : Reader α} {a : α} {nType : TxnOutType}
    {fIsOwner : Bool} (hh : hash.length = 20) (hle : payload.length < 110)
    (hr : Reads reader payload [opDrop] a)
    (hb : built = constructAsset type payload (payToPubKeyHash hash))
    (hki : ∀ index, assetScriptFor type (built.length > 39) index = some ⟨nType, fIsOwner, index⟩)
    (ht : nType = .newAsset ∨ nType = .reissueAsset ∨ nType = .transferAsset) :
    ∃ index, isAssetScript built = some ⟨nType, fIsOwner, index⟩ ∧
      assetScriptOf nType fIsOwner built = some index ∧
      decode reader (built.drop index) = some a ∧
      scriptAddress env built = encodeDestination env (.keyID hash) := by
  obtain ⟨hl, index, hd, hsc⟩ :=
    isAssetScript_constructAsset (length_payToPubKeyHash hh) hle hb
  rw [hki index] at hsc
  refine ⟨index, hsc, ?_, ?_, scriptAddress_constructAsset hh hb (by omega) hsc ht⟩
  · simp [assetScriptOf, hsc]
  · rw [hd]
    exact decode_eq hr

/-- The scripts built for a key hash are classified by their payloads and read back as they were
written, with the address of the key hash. -/
theorem constructTransaction_roundTrip (hdeployed : env.areTransferScriptsSizeDeployed = true)
    (hhash : hash.length = 20) :
    (∀ asset : CNewAsset, asset.Written →
      (∃ index, CScript.isAssetScript (asset.constructTransaction (CScript.payToPubKeyHash hash)) =
        some ⟨.newAsset, false, index⟩) ∧
      assetFromScript env (asset.constructTransaction (CScript.payToPubKeyHash hash)) =
        some (asset, encodeDestination env (.keyID hash))) ∧
    (∀ asset : CNewAsset, asset.strName.length ≤ maxNameLength →
      (∃ index, CScript.isAssetScript (asset.constructOwnerTransaction (CScript.payToPubKeyHash hash)) =
        some ⟨.newAsset, true, index⟩) ∧
      ownerAssetFromScript env (asset.constructOwnerTransaction (CScript.payToPubKeyHash hash)) =
        some (asset.strName ++ ownerTag, encodeDestination env (.keyID hash))) ∧
    (∀ reissue : CReissueAsset, reissue.Written →
      (∃ index, CScript.isAssetScript (reissue.constructTransaction (CScript.payToPubKeyHash hash)) =
        some ⟨.reissueAsset, false, index⟩) ∧
      reissueAssetFromScript env (reissue.constructTransaction (CScript.payToPubKeyHash hash)) =
        some (reissue, encodeDestination env (.keyID hash))) ∧
    (∀ transfer : CAssetTransfer, transfer.Written →
      (∃ index, CScript.isAssetScript (transfer.constructTransaction (CScript.payToPubKeyHash hash)) =
        some ⟨.transferAsset, false, index⟩) ∧
      transferAssetFromScript env (transfer.constructTransaction (CScript.payToPubKeyHash hash)) =
        some (transfer, encodeDestination env (.keyID hash))) := by
  refine ⟨fun asset h => ?_, fun asset hname => ?_, fun reissue h => ?_, fun transfer h => ?_⟩
  · have hl := length_newAsset h
    have hlo := (@isAssetScript_constructAsset asset.serialize cmusicaiQ _ _
      (length_payToPubKeyHash hhash) (by omega) rfl).1
    have hse : 11 ≤ asset.serialize.length := by
      simp [serialize, writeInt64, writeInt8, length_writeLE]
      omega
    obtain ⟨index, hsc, hi, hr, ha⟩ := @decode_constructAsset env hash asset.serialize
      cmusicaiQ _ _ _ _ .newAsset false hhash (by omega) (reads_newAsset h) rfl
      (fun _ => by rw [decide_eq_true (by omega)]; rfl) (Or.inl rfl)
    refine ⟨⟨index, hsc⟩, ?_⟩
    simp only [assetFromScript, constructTransaction, isScriptNewAsset, hi,
      Option.bind_eq_bind, Option.bind_some, hr, ha, Option.pure_def]
  · have ht : (asset.strName ++ ownerTag).length < 253 := by
      unfold maxNameLength at hname
      rw [List.length_append]
      change asset.strName.length + 1 < 253
      omega
    have hl := length_writeString ht
    obtain ⟨index, hsc, hi, hr, ha⟩ := @decode_constructAsset env hash
      (writeString (asset.strName ++ ownerTag)) cmusicaiO _ _ _ _ .newAsset true hhash (by
        unfold maxNameLength at hname
        rw [hl, List.length_append]
        change asset.strName.length + 1 + 1 < 110
        omega) (reads_readString (by omega)) rfl (fun _ => rfl) (Or.inl rfl)
    refine ⟨⟨index, hsc⟩, ?_⟩
    simp only [ownerAssetFromScript, constructOwnerTransaction, isScriptOwnerAsset,
      hi, Option.bind_eq_bind, Option.bind_some, hr, ha, Option.pure_def]
  · have hl := length_reissueAsset h
    obtain ⟨index, hsc, hi, hr, ha⟩ := @decode_constructAsset env hash
      reissue.serialize cmusicaiN _ _ _ _ .reissueAsset false hhash (by omega)
      (reads_reissueAsset h (by simp)) rfl (fun _ => rfl) (Or.inr (Or.inl rfl))
    refine ⟨⟨index, hsc⟩, ?_⟩
    simp only [reissueAssetFromScript, CReissueAsset.constructTransaction, isScriptReissueAsset,
      hi, Option.bind_eq_bind, Option.bind_some, hr, ha, Option.pure_def]
  · have hl := length_assetTransfer h
    obtain ⟨index, hsc, hi, hr, ha⟩ := @decode_constructAsset env hash
      transfer.serialize cmusicaiT _ _ _ _ .transferAsset false hhash (by omega)
      (reads_assetTransfer h (by simp)) rfl (fun _ => rfl) (Or.inr (Or.inr rfl))
    refine ⟨⟨index, hsc⟩, ?_⟩
    simp only [transferAssetFromScript, CAssetTransfer.constructTransaction,
      isScriptTransferAsset, hi, Option.bind_eq_bind, Option.bind_some, transferPayload,
      hdeployed, if_true, hr, ha, Option.pure_def]

/-- A transfer whose push needs the longer form, with a message and an expiry time. -/
def sampleMessageTransfer : CAssetTransfer where
  strName := str "MUSICMUSICMUSICMUSICMUSICMUSICM"
  nAmount := 7
  message := [0x12, 0x20] ++ List.replicate 32 9
  nExpireTime := 1000

theorem written_sampleMessageTransfer : sampleMessageTransfer.Written where
  name := by decide
  message := Or.inr (Or.inr ⟨List.replicate 32 9, by decide, rfl⟩)
  expire := by decide

theorem constructTransaction_roundTrip_sampleMessageTransfer :
    transferAssetFromScript sampleEnv (sampleMessageTransfer.constructTransaction sampleScript) =
        some (sampleMessageTransfer, encodeDestination sampleEnv (.keyID (List.replicate 20 1))) ∧
      opPushData1.toNat ≤ sampleMessageTransfer.serialize.length + 4 :=
  ⟨((constructTransaction_roundTrip rfl (by decide)).2.2.2 sampleMessageTransfer
    written_sampleMessageTransfer).2, by decide⟩

end Scripts

section Verifier

variable {s tail : Str} {k : Nat}

/-- What a compact size can have been read from. -/
theorem readCompactSize_cases {b : UInt8} {bs : Str}
    (h : readCompactSize (b :: bs) = some (k, tail)) :
    k ≤ maxSize ∧ (b.toNat < 253 ∧ k = b.toNat ∨
      b.toNat = 253 ∧ k = littleEndian (bs.take 2) ∧ 253 ≤ k ∨
      b.toNat = 254 ∧ k = littleEndian (bs.take 4) ∧ 0x10000 ≤ k ∨
      b.toNat = 255 ∧ 0x100000000 ≤ k) := by
  have hbyt : readLE 1 (b :: bs) = some (b.toNat, bs) := by
    change some (littleEndian [b], bs) = _
    simp [littleEndian]
  have hli : ∀ (n : Nat) (rest : Str),
      (if n > maxSize then failure else pure n : Reader Nat) rest = some (k, tail) →
      k ≤ maxSize ∧ k = n := by
    intro n rest hn
    split at hn
    · cases hn
    next hm =>
      cases hn
      exact ⟨Nat.not_lt.1 hm, rfl⟩
  have hl : ∀ (width least : Nat), (readLE width >>= fun n => if n < least
      then failure >>= fun n => if n > maxSize then failure else pure n
      else pure n >>= fun n => if n > maxSize then failure else pure n : Reader Nat) bs =
        some (k, tail) →
      k ≤ maxSize ∧ k = littleEndian (bs.take width) ∧ least ≤ k := by
    intro width least hr
    obtain ⟨n, rest, hby, hr⟩ := Reads.exists_of_bind hr
    have hv : n = littleEndian (bs.take width) := by
      obtain ⟨bytes, rest', ht, hre⟩ := Reads.exists_of_bind hby
      unfold readBytes at ht
      split at ht
      · cases ht
        cases hre
        rfl
      · cases ht
    split at hr
    · cases hr
    next hle =>
      obtain ⟨hm, hk⟩ := hli n rest hr
      exact ⟨hm, hk.trans hv, by omega⟩
  unfold readCompactSize at h
  obtain ⟨n, rest, hn, hr⟩ := Reads.exists_of_bind h
  rw [hbyt] at hn
  cases hn
  have hb := b.toNat_lt
  dsimp only at hr
  split at hr
  next hsm =>
    obtain ⟨hm, hk⟩ := hli _ bs hr
    exact ⟨hm, Or.inl ⟨hsm, hk⟩⟩
  · split at hr
    next h253 =>
      obtain ⟨hm, hk⟩ := hl 2 253 hr
      exact ⟨hm, Or.inr (Or.inl ⟨h253, hk⟩)⟩
    · split at hr
      next h254 =>
        obtain ⟨hm, hk⟩ := hl 4 0x10000 hr
        exact ⟨hm, Or.inr (Or.inr (Or.inl ⟨h254, hk⟩))⟩
      · obtain ⟨hm, -, hk⟩ := hl 8 0x100000000 hr
        exact ⟨hm, Or.inr (Or.inr (Or.inr ⟨by omega, hk⟩))⟩

theorem exists_of_readString {a : Str} (h : readString s = some (a, tail)) :
    ∃ mid, readCompactSize s = some (a.length, mid) := by
  obtain ⟨n, mid, hsi, hb⟩ := Reads.exists_of_bind h
  change (if n ≤ mid.length then some (mid.take n, mid.drop n) else none) = _ at hb
  split at hb
  next hle =>
    cases hb
    refine ⟨mid, ?_⟩
    rw [hsi, List.length_take, Nat.min_eq_left hle]
  · cases hb

theorem writeString_cases (s : Str) : (s.length < 253 ∧ writeString s = s.length.toUInt8 :: s) ∨
      (253 ≤ s.length ∧ s.length ≤ 0xffff ∧ writeString s = 253 :: (writeLE 2 s.length ++ s)) ∨
      (0xffff < s.length ∧ ∃ b tail, 253 < UInt8.toNat b ∧ writeString s = b :: tail ∧
        s.length + 4 ≤ tail.length) := by
  unfold writeString writeCompactSize
  split
  next h => exact Or.inl ⟨h, rfl⟩
  · split
    next h h' => exact Or.inr (Or.inl ⟨by omega, h', rfl⟩)
    · refine Or.inr (Or.inr ⟨by omega, ?_⟩)
      split
      · exact ⟨254, _, by decide, rfl, by simp [length_writeLE]; omega⟩
      · exact ⟨255, _, by decide, rfl, by simp [length_writeLE]; omega⟩

/-- The string behind the longer forms of a push is read from the wrong byte, which never announces
its length. -/
theorem readCompactSize_pushData_ne (s mid : Str) (h : 75 ≤ s.length) :
    readCompactSize ((pushData [] (writeString s)).drop 1) ≠ some (s.length, mid) := by
  intro hr
  unfold pushData at hr
  rcases writeString_cases s with ⟨hs, hw⟩ | ⟨hs, hs', hw⟩ | ⟨hs, b, tail, hb, hw, ht⟩
  · -- the length byte of the push counts one byte more
    have hp : ¬(writeString s).length < opPushData1.toNat ∧ (writeString s).length ≤ 0xff := by
      rw [hw, List.length_cons]
      change ¬s.length + 1 < 76 ∧ s.length + 1 ≤ 255
      omega
    rw [if_neg hp.1, if_pos hp.2] at hr
    obtain ⟨-, hc⟩ := readCompactSize_cases hr
    rw [hw, List.length_cons, toNat_toUInt8] at hc
    omega
  · have hl : (writeString s).length = s.length + 3 := by
      rw [hw, List.length_cons, List.length_append, length_writeLE]
      omega
    have hp : ¬(writeString s).length < opPushData1.toNat ∧ ¬(writeString s).length ≤ 0xff := by
      rw [hl]
      change ¬s.length + 3 < 76 ∧ ¬s.length + 3 ≤ 255
      omega
    rw [if_neg hp.1, if_neg hp.2] at hr
    split at hr
    · obtain ⟨-, hc⟩ := readCompactSize_cases hr
      rw [hl, hw, toNat_toUInt8] at hc
      -- the second byte of the push and the marker 253 would have to be the length itself
      change _ ∨ _ ∧ s.length = ((s.length + 3) / 256).toUInt8.toNat +
        256 * ((253 : UInt8).toNat + 256 * 0) ∧ _ ∨ _ at hc
      rw [toNat_toUInt8, show (253 : UInt8).toNat = 253 from rfl] at hc
      omega
    · obtain ⟨-, hc⟩ := readCompactSize_cases hr
      rw [hl, toNat_toUInt8] at hc
      omega
  · have hp : ¬(writeString s).length < opPushData1.toNat ∧
        ¬(writeString s).length ≤ 0xff ∧ ¬(writeString s).length ≤ 0xffff := by
      rw [hw, List.length_cons]
      change ¬tail.length + 1 < 76 ∧ _
      omega
    rw [if_neg hp.1, if_neg hp.2.1, if_neg hp.2.2] at hr
    obtain ⟨hm, hc⟩ := readCompactSize_cases hr
    generalize (writeString s).length = m at hc
    rw [hw] at hc
    -- the first byte of the string's own size is the highest of four, above what is allowed
    change _ ∨ _ ∧ s.length = (m / 256).toUInt8.toNat + 256 * ((m / 256 / 256).toUInt8.toNat +
      256 * 0) ∧ _ ∨ _ ∧ s.length = (m / 256).toUInt8.toNat + 256 * ((m / 256 / 256).toUInt8.toNat +
      256 * ((m / 256 / 256 / 256).toUInt8.toNat + 256 * (b.toNat + 256 * 0))) ∧ _ ∨ _ at hc
    simp only [toNat_toUInt8] at hc
    unfold maxSize at hm
    omega

/-- The first byte of a push is never the second marker. -/
theorem pushData_head {payload : Str} (h : payload ≠ []) :
    ∃ op first rest, op ≠ opReserved ∧ pushData [] payload = op :: first :: rest := by
  obtain ⟨first, rest, rfl⟩ := List.exists_cons_of_ne_nil h
  unfold pushData
  split
  next hl =>
    refine ⟨_, first, rest, ?_, rfl⟩
    intro heq
    have ht := congrArg UInt8.toNat heq
    rw [toNat_toUInt8] at ht
    change (first :: rest).length < 76 at hl
    change _ = 80 at ht
    omega
  · split
    · exact ⟨opPushData1, _, _, by decide, rfl⟩
    · split
      · exact ⟨opPushData2, _, _, by decide, rfl⟩
      · exact ⟨opPushData4, _, _, by decide, rfl⟩

/-- The script of a verifier string is always recognised, and read back as it was written exactly for
strings of at most 74 bytes. -/
theorem assetNullVerifierDataFromScript_iff (verifier : CNullAssetTxVerifierString) :
    CScript.isNullAssetVerifierTxDataScript verifier.constructTransaction = true ∧
      (assetNullVerifierDataFromScript verifier.constructTransaction = some verifier ↔
        verifier.verifierString.length ≤ 74) := by
  obtain ⟨s⟩ := verifier
  have hne : writeString s ≠ [] := by
    intro hn
    rcases writeString_cases s with ⟨-, hw⟩ | ⟨-, -, hw⟩ | ⟨-, b, tail, -, hw, -⟩ <;>
      rw [hw] at hn <;> cases hn
  obtain ⟨op, first, rest, hop, hpu⟩ := pushData_head hne
  have hsc : CNullAssetTxVerifierString.constructTransaction ⟨s⟩ =
      opCmusicaiAsset :: opReserved :: op :: first :: rest := by
    rw [← hpu]
    rfl
  have hm : isNullAssetVerifierTxDataScript
      (CNullAssetTxVerifierString.constructTransaction ⟨s⟩) = true := by
    rw [hsc]
    simp [isNullAssetVerifierTxDataScript, byteAt, hop]
  refine ⟨hm, ?_⟩
  unfold assetNullVerifierDataFromScript
  rw [if_pos hm, hsc]
  change decode CNullAssetTxVerifierString.unserialize (first :: rest) = _ ↔ s.length ≤ 74
  have ht : first :: rest = (pushData [] (writeString s)).drop 1 := by
    rw [hpu]
    rfl
  constructor
  · intro hd
    by_contra hl
    obtain ⟨⟨read, tail⟩, hr, heq⟩ := Option.map_eq_some_iff.1 hd
    obtain ⟨a, mid, ha, hre⟩ := Reads.exists_of_bind hr
    cases hre
    cases heq
    obtain ⟨mid', hsi⟩ := exists_of_readString ha
    rw [ht] at hsi
    exact readCompactSize_pushData_ne s mid' (Nat.lt_of_not_le hl) hsi
  · intro hsh
    -- a short push has one byte, and the string follows it
    have hp : first :: rest = writeString s ++ [] := by
      rw [ht, pushData, if_pos]
      · simp
      · rw [writeString, List.length_append, length_writeCompactSize (by omega)]
        change 1 + s.length < 76
        omega
    rw [hp]
    exact decode_eq (reads_readString (by omega)).bind_pure

/-- Nineteen times the same qualifier, 75 bytes. -/
def longVerifier : CNullAssetTxVerifierString :=
  ⟨str "AAA&AAA&AAA&AAA&AAA&AAA&AAA&AAA&AAA&AAA&AAA&AAA&AAA&AAA&AAA&AAA&AAA&AAA&AAA"⟩

/-- The length byte of the push is read as the length of the string, and the string's own length byte
as its first character. -/
theorem assetNullVerifierDataFromScript_longVerifier :
    (checkVerifierString longVerifier.verifierString).isOk = true ∧
      (getStrippedVerifierString longVerifier.verifierString).length = 75 ∧
      assetNullVerifierDataFromScript longVerifier.constructTransaction =
        some ⟨75 :: longVerifier.verifierString⟩ := by
  decide +kernel

end Verifier

section Commands

variable {env : Env} {hash name : Str} {flag : Int8} {script : CScript}

theorem pushData_of_short {b : Str} (h : b.length < 76) :
    pushData script b = script ++ b.length.toUInt8 :: b := by
  rw [pushData, if_pos (show b.length < opPushData1.toNat from h)]
  simp

theorem getOp_push {b rest : Str} (h : b.length < 76) :
    CScript.getOp (b.length.toUInt8 :: (b ++ rest)) = some (b.length.toUInt8, b, rest) := by
  have hb : b.length.toUInt8.toNat = b.length := by rw [toNat_toUInt8]; omega
  have hl : b.length.toUInt8 < opPushData1 := by
    rw [UInt8.lt_iff_toNat_lt, hb]
    exact h
  simp [CScript.getOp, hl, hb]

/-- The name reaches beyond byte 25 in every script that is long enough for an asset script. -/
theorem isAssetScript_of_name {front : CScript} {b : UInt8} (hf : front.length ≤ 25)
    (hname : ∀ c ∈ name, c < 128) : isAssetScript (front ++ (name ++ [b])) = none := by
  unfold isAssetScript
  refine if_neg fun hsc => ?_
  simp only [Bool.and_eq_true, decide_eq_true_eq, List.length_append, List.length_singleton] at hsc
  obtain ⟨hl, hb⟩ := hsc
  have hi : 25 - front.length < name.length := by omega
  have hc : byteAt (front ++ (name ++ [b])) (front.length + (25 - front.length)) =
      name[25 - front.length] := by
    rw [byteAt_append rfl, byteAt, List.getD_eq_getElem?_getD, List.getElem?_append_left hi]
    simp [hi]
  rw [Nat.add_sub_cancel' hf, hb] at hc
  have ha := hname _ (List.getElem_mem hi)
  rw [← hc] at ha
  exact absurd ha (by decide)

/-- What the data script of a key hash is solved to. -/
theorem scriptAddress_tag {body script : CScript} (hh : hash.length = 20) (hb : body.length < 76)
    (hsc : script = opCmusicaiAsset :: 0x14 :: (hash ++ body.length.toUInt8 :: body))
    (ha : isAssetScript script = none) :
    scriptAddress env script = encodeDestination env (.keyID hash) := by
  have hse := @getOp_push body [] hb
  have hop : body.length.toUInt8 ≤ op16 := by
    rw [UInt8.le_iff_toNat_le, toNat_toUInt8]
    change _ ≤ 96
    omega
  generalize body.length.toUInt8 = size at hsc hse hop
  have hp : isPushOnly (0x14 :: (hash ++ size :: body)) = true := by
    have hfirst : CScript.getOp (0x14 :: (hash ++ size :: body)) = some (0x14, hash, size :: body) := by
      have hg := @getOp_push hash (size :: body) (by omega)
      rwa [hh] at hg
    have ho' : (0x14 : UInt8) ≤ op16 := by decide
    rw [List.append_nil] at hse
    simp [isPushOnly, isPushOnlyAux, hfirst, hse, hop, ho', hh]
  have hso : solver script = some (.restrictedAssetData, [hash]) := by
    rw [solver, ha, hsc, List.drop_one, List.tail_cons, hp]
    simp [isPayToScriptHash, isWitnessProgram, byteAt, decodeOpN,
      opCmusicaiAsset, opReturn, opReserved, opHash160, op1, op16, hh]
    omega
  rw [scriptAddress, extractDestination, hso]
  rfl

/-- A tag names the key hash and carries the name and the flag; a global freeze has two markers in
place of the hash. Neither is taken for another kind of script. -/
theorem nullData_roundTrip {type : AssetType} (hname : assetNameType name = some type)
    (htype : type = .qualifier ∨ type = .subQualifier ∨ type = .restricted) (hhash : hash.length = 20)
    (flag : Int8) :
    (∃ tag, tag = CNullAssetTxData.constructTransaction ⟨name, flag⟩ (getScriptForNullAssetDataDestination hash) ∧
      CScript.isNullAssetTxDataScript tag = true ∧
      CScript.isNullGlobalRestrictionAssetTxDataScript tag = false ∧
      CScript.isNullAssetVerifierTxDataScript tag = false ∧ CScript.isAssetScript tag = none ∧
      assetNullDataFromScript env tag = some (⟨name, flag⟩, encodeDestination env (.keyID hash))) ∧
    (∃ freeze, freeze = CNullAssetTxData.constructGlobalRestrictionTransaction ⟨name, flag⟩ ∧
      CScript.isNullGlobalRestrictionAssetTxDataScript freeze = true ∧
      CScript.isNullAssetTxDataScript freeze = false ∧
      CScript.isNullAssetVerifierTxDataScript freeze = false ∧ CScript.isAssetScript freeze = none ∧
      globalAssetNullDataFromScript freeze = some ⟨name, flag⟩) := by
  have hl : name.length ≤ 40 := length_of_isAssetNameOk (by rw [isAssetNameOk, hname]; rfl)
  obtain ⟨hne, hc⟩ := chars_of_commandName hname htype
  -- the payload behind the push, and what is read from it
  obtain ⟨b, hb⟩ : ∃ b, writeInt8 flag = [b] := ⟨_, rfl⟩
  obtain ⟨body, hbo⟩ : ∃ body, CNullAssetTxData.serialize ⟨name, flag⟩ = body := ⟨_, rfl⟩
  have hp : body = name.length.toUInt8 :: (name ++ [b]) := by
    rw [← hbo, CNullAssetTxData.serialize, hb, writeString, writeCompactSize,
      if_pos (hl.trans_lt (by decide))]
    rfl
  have hd : decode CNullAssetTxData.unserialize body = some ⟨name, flag⟩ := by
    rw [← hbo]
    exact decode_self ((reads_readString (hl.trans (by decide))).bind (reads_readInt8 flag).bind_pure)
  have hpo : 0 < name.length := List.length_pos_iff.2 hne
  have hsi : 2 < body.length ∧ body.length < 76 := by
    rw [hp]
    simp
    omega
  refine ⟨⟨_, rfl, ?_⟩, ⟨_, rfl, ?_⟩⟩
  · rw [CNullAssetTxData.constructTransaction, getScriptForNullAssetDataDestination, hbo,
      pushData_of_short hsi.2, pushData_of_short (hhash.trans_lt (by decide)), hhash]
    obtain ⟨script, hsc⟩ : ∃ script, script =
        opCmusicaiAsset :: 0x14 :: (hash ++ body.length.toUInt8 :: body) := ⟨_, rfl⟩
    have ht : [opCmusicaiAsset] ++ Nat.toUInt8 20 :: hash ++ body.length.toUInt8 :: body = script := by
      rw [hsc]
      simp
    have ha : isAssetScript script = none := by
      have hf := @isAssetScript_of_name name (opCmusicaiAsset :: 0x14 ::
        (hash ++ [body.length.toUInt8, name.length.toUInt8])) b (by simp [hhash]) hc
      rw [hsc, hp]
      simpa [hp] using hf
    have hn : isNullAssetTxDataScript script = true := by
      rw [hsc]
      simp [isNullAssetTxDataScript, byteAt, hhash]
      omega
    have hdr : script.drop 23 = body := by
      rw [hsc]
      change (hash ++ body.length.toUInt8 :: body).drop (20 + 1) = body
      rw [← hhash, List.drop_length_add_append]
      rfl
    rw [ht]
    refine ⟨hn, ?_, ?_, ha, ?_⟩
    · simp [hsc, isNullGlobalRestrictionAssetTxDataScript, byteAt, opReserved]
    · simp [hsc, isNullAssetVerifierTxDataScript, byteAt, opReserved]
    rw [assetNullDataFromScript, if_pos hn, hdr, hd, scriptAddress_tag hhash hsi.2 hsc ha]
    rfl
  · rw [CNullAssetTxData.constructGlobalRestrictionTransaction, hbo, pushData_of_short hsi.2,
      List.cons_append, List.cons_append, List.cons_append, List.nil_append]
    have hn : isNullGlobalRestrictionAssetTxDataScript
        (opCmusicaiAsset :: opReserved :: opReserved :: body.length.toUInt8 :: body) = true := by
      simp [isNullGlobalRestrictionAssetTxDataScript, byteAt]
      omega
    refine ⟨hn, ?_, ?_, ?_, ?_⟩
    · simp [isNullAssetTxDataScript, byteAt, opReserved]
    · simp [isNullAssetVerifierTxDataScript, byteAt]
    · rw [hp]
      exact @isAssetScript_of_name name [opCmusicaiAsset, opReserved, opReserved, _, name.length.toUInt8] b
        (by simp) hc
    · rw [globalAssetNullDataFromScript, if_pos hn]
      exact hd

theorem nullData_roundTrip_sample : assetNameType (str "#KYC") = some .qualifier ∧
    globalAssetNullDataFromScript (CNullAssetTxData.constructGlobalRestrictionTransaction ⟨str "#KYC", 1⟩) =
      some ⟨str "#KYC", 1⟩ := by
  have hname : assetNameType (str "#KYC") = some .qualifier := by decide +kernel
  obtain ⟨-, freeze, rfl, -, -, -, -, hr⟩ := @nullData_roundTrip sampleEnv (List.replicate 20 1) _ _
    hname (Or.inl rfl) (by decide) 1
  exact ⟨hname, hr⟩

end Commands

end Cmusic
