import Cmusic.ChainRuns
import Cmusic.CommandRoundTrip
import Cmusic.MempoolAccept
import Cmusic.MempoolLinks
import Cmusic.Utxo

/-! Removing from the memory pool what a connected block confirms or contradicts. -/
namespace Cmusic

open Fallible Std Relation CTxMemPool Maps

/-- `ConnectedBlockAssetData`: the sets to add of the asset cache of a block. -/
structure ConnectedBlockAssetData where
  newAssetsToAdd : StrMap CAssetCacheNewAsset := ∅
  newVerifiersToAdd : StrMap CAssetCacheRestrictedVerifiers := ∅
  newAddressRestrictionsToAdd : PairMap RestrictedType := ∅
  newGlobalRestrictionsToAdd : StrMap RestrictedType := ∅
  newQualifiersToAdd : PairMap QualifierType := ∅

def CAssetsCache.connectedBlockAssetData (cache : CAssetsCache) : ConnectedBlockAssetData where
  newAssetsToAdd := cache.newAssets.toAdd
  newVerifiersToAdd := cache.newRestrictedVerifier.toAdd
  newAddressRestrictionsToAdd := cache.newRestrictedAddress.toAdd
  newGlobalRestrictionsToAdd := cache.newRestrictedGlobal.toAdd
  newQualifiersToAdd := cache.newQualifierAddress.toAdd

/-- The transactions that `removeForBlock` takes for invalid, and their ids. -/
structure Removing where
  trans : List CTransaction := []
  setAlreadyRemoving : TreeSet UInt256 := ∅

def Removing.push (marked : Removing) (hash : UInt256) (tx : CTransaction) : Removing :=
  ⟨marked.trans ++ [tx], marked.setAlreadyRemoving.insert hash⟩

namespace CTxMemPool

section Model

variable (env : Env) (g : AssetGlobals) (tip : TreeMap COutPoint Coin) (pool : CTxMemPool)

/-- An entry that issues a name of the block; it is pushed even if it is marked already. -/
def markNewAsset (marked : Removing) (name : Str) : Removing :=
  match pool.mapAssetToHash[name]? with
  | none => marked
  | some hash =>
    match pool.mapTx[hash]? with
    | none => marked
    | some tx => marked.push hash tx

/-- One entry of a set of the pool, if it is not marked yet and fails the check. -/
def markEntry (fails : CTransaction → Bool) (marked : Removing) (hash : UInt256) : Removing :=
  match pool.mapTx[hash]? with
  | none => marked
  | some tx =>
    if !marked.setAlreadyRemoving.contains hash && fails tx then marked.push hash tx else marked

def markEntries (fails : CTransaction → Bool) (marked : Removing) (hashes : TreeSet UInt256) :
    Removing :=
  hashes.toList.foldl (pool.markEntry fails) marked

/-- `!CheckTransaction(tx, state, passets)`: the cache stands in the place of the flag for duplicate
inputs, which it turns on. -/
def failsCheckTransaction (tx : CTransaction) : Bool := !(checkTransaction env tx true false false).isOk

/-- `!CheckTxAssets(tx, state, pcoinsTip, passets, false, vReissueAssets)`. -/
def failsCheckTxAssets (tx : CTransaction) : Bool :=
  !(checkTxAssets env g g.passets tx { base := tip } pool.toMempoolAssets false).isOk

/-- One global restriction: transfers of the asset are checked again, and another request of the
same kind goes. -/
def markGlobalRestriction (marked : Removing) (item : Str × RestrictedType) : Removing :=
  match item.2 with
  | .globalFreeze =>
    pool.markEntries (fun _ => true)
      (pool.markEntries (failsCheckTransaction env) marked (pool.assetMarkedGlobalFrozen.itemsOf item.1))
      (pool.globalFreezing.itemsOf item.1)
  | .globalUnfreeze =>
    pool.markEntries (fun _ => true) marked (pool.globalUnFreezing.itemsOf item.1)
  | _ => marked

/-- One address restriction; the key of the pool has the address in front of the name. -/
def markAddressRestriction (marked : Removing) (item : (Str × Str) × RestrictedType) : Removing :=
  match item.2 with
  | .freezeAddress => pool.markEntries (pool.failsCheckTxAssets env g tip) marked
      (pool.addressesMarkedFrozen.itemsOf (item.1.2, item.1.1))
  | _ => marked

/-- The transactions `trans` of `removeForBlock`, over the coins and the assets after the block. -/
def assetConflicts (data : ConnectedBlockAssetData) : List CTransaction :=
  let marked := data.newAssetsToAdd.keys.foldl pool.markNewAsset {}
  let marked := data.newVerifiersToAdd.keys.foldl (fun marked name =>
    pool.markEntries (failsCheckTransaction env) marked (pool.verifierChanged.itemsOf name)) marked
  let marked := data.newQualifiersToAdd.keys.foldl (fun marked key =>
    pool.markEntries (failsCheckTransaction env) marked (pool.qualifiersChanged.itemsOf key.2)) marked
  let marked := data.newGlobalRestrictionsToAdd.toList.foldl (pool.markGlobalRestriction env) marked
  (data.newAddressRestrictionsToAdd.toList.foldl (pool.markAddressRestriction env g tip) marked).trans

/-- The entry goes without its descendants. -/
def removeEntry (hash : UInt256) : CTxMemPool :=
  if pool.mapTx.contains hash then pool.removeStaged [hash] else pool

/-- One turn of the last two loops: the entry itself, then its conflicts with their descendants. -/
def removeWithConflicts (tx : CTransaction) : CTxMemPool :=
  (pool.removeEntry tx.hash).removeConflicts tx

/-- `removeForBlock`. -/
def removeForBlock (vtx : List CTransaction) (data : ConnectedBlockAssetData) : CTxMemPool :=
  (pool.assetConflicts env g tip data).foldl removeWithConflicts (vtx.foldl removeWithConflicts pool)

variable {env g tip pool} in
theorem KeptByRemoval.removeForBlock {P : CTxMemPool → Prop} (h : KeptByRemoval P) (hp : P pool)
    (vtx : List CTransaction) (data : ConnectedBlockAssetData) :
    P (pool.removeForBlock env g tip vtx data) := by
  have hstep : ∀ q tx, P q → P (removeWithConflicts q tx) := by
    intro q tx hq
    refine h.removeConflicts ?_ tx
    unfold removeEntry
    split
    · exact h.removeStaged hq _
    · exact hq
  unfold CTxMemPool.removeForBlock
  exact foldl (P := P) hstep _ (foldl (P := P) hstep _ hp)

end Model

section Within

variable {pool q q' : CTxMemPool} {k : UInt256} {outpoint : COutPoint} {a b : UInt256}

/-- Some entries of a pool, with their links. -/
structure Within (q pool : CTxMemPool) : Prop where
  linked : q.Linked
  entry : ∀ (k : UInt256) (tx : CTransaction), q.mapTx[k]? = some tx → pool.mapTx[k]? = some tx

theorem Linked.within (h : pool.Linked) : pool.Within pool := ⟨h, fun _ _ => id⟩

theorem Within.trans (h : q'.Within q) (h' : q.Within pool) : q'.Within pool :=
  ⟨h.linked, fun k tx hk => h'.entry k tx (h.entry k tx hk)⟩

theorem Linked.within_removeStaged (h : pool.Linked) (stage : List UInt256) :
    (pool.removeStaged stage).Within pool where
  linked := h.removeStaged stage
  entry k tx hk := by
    rw [getElem?_removeStaged] at hk
    split at hk
    · cases hk
    · exact hk

theorem Within.getElem? (h : q.Within pool) (hk : k ∈ q.mapTx) : q.mapTx[k]? = pool.mapTx[k]? := by
  rw [TreeMap.mem_iff_isSome_getElem?, Option.isSome_iff_exists] at hk
  obtain ⟨tx, htx⟩ := hk
  rw [htx, h.entry k tx htx]

theorem Within.mem_inputsOf (h : q.Within pool) :
    outpoint ∈ q.inputsOf k ↔ k ∈ q.mapTx ∧ outpoint ∈ pool.inputsOf k := by
  constructor
  · intro ho
    have hk := mem_of_mem_inputsOf ho
    rw [inputsOf, h.getElem? hk] at ho
    exact ⟨hk, ho⟩
  · rintro ⟨hk, ho⟩
    rwa [inputsOf, h.getElem? hk]

theorem Within.spendsFrom (h : q.Within pool) :
    q.SpendsFrom b a ↔ b ∈ q.mapTx ∧ pool.SpendsFrom b a := by
  simp only [SpendsFrom, h.mem_inputsOf, and_assoc, exists_and_left]

theorem Within.descends (h : q.Within pool) (hab : q.Descends a b) : pool.Descends a b :=
  ReflTransGen.mono (fun _ _ hspends => (h.spendsFrom.1 hspends).2) _ _ hab

/-- A line of descent whose members all stay is one of the smaller pool. -/
theorem Within.descends_of_mem (h : q.Within pool) (hab : pool.Descends a b)
    (hm : ∀ x, pool.Descends a x → pool.Descends x b → x ∈ q.mapTx) : q.Descends a b := by
  induction hab with
  | refl => exact .refl
  | tail hax hspends ih =>
    refine (ih fun x hx hxy => hm x hx (hxy.tail hspends)).tail ?_
    exact h.spendsFrom.2 ⟨hm _ (hax.tail hspends) .refl, hspends⟩

/-- Who spends an outpoint and leads to an entry does so in the smaller pool, if the line stays. -/
theorem Within.leads_iff (h : q.Within pool)
    (hm : ∀ x, outpoint ∈ pool.inputsOf a → pool.Descends a x → pool.Descends x b → x ∈ q.mapTx) :
    (outpoint ∈ q.inputsOf a ∧ q.Descends a b) ↔
      (outpoint ∈ pool.inputsOf a ∧ pool.Descends a b) := by
  constructor
  · rintro ⟨ho, hab⟩
    exact ⟨(h.mem_inputsOf.1 ho).2, h.descends hab⟩
  · rintro ⟨ho, hab⟩
    refine ⟨h.mem_inputsOf.2 ⟨hm a ho .refl hab, ho⟩, h.descends_of_mem hab fun x => hm x ho⟩

end Within

section Conflicts

variable {pool q : CTxMemPool} {tx : CTransaction} {txin : CTxIn} {k : UInt256}

/-- An entry other than the transaction spends one of its inputs. -/
def Conflicts (pool : CTxMemPool) (tx : CTransaction) (hash : UInt256) : Prop :=
  hash ≠ tx.hash ∧ ∃ txin ∈ tx.vin, txin.prevout ∈ pool.inputsOf hash

theorem Linked.removeRecursive (h : pool.Linked) (htx : tx.hash ∈ pool.mapTx) :
    (pool.removeRecursive tx).Within pool ∧
      (k ∈ (pool.removeRecursive tx).mapTx ↔ k ∈ pool.mapTx ∧ ¬ pool.Descends tx.hash k) := by
  rw [CTxMemPool.removeRecursive, if_pos (TreeMap.contains_iff_mem.2 htx)]
  refine ⟨h.within_removeStaged _, ?_⟩
  rw [mem_removeStaged, h.mem_withDescendants (by simpa using htx)]
  simp

/-- What goes for one input: whoever spends it, with the descendants. -/
theorem Linked.removeConflict (h : pool.Linked) :
    (pool.removeConflict tx txin).Within pool ∧ ∀ k, k ∈ (pool.removeConflict tx txin).mapTx ↔
      k ∈ pool.mapTx ∧ ∀ c, c ≠ tx.hash → txin.prevout ∈ pool.inputsOf c → ¬ pool.Descends c k := by
  unfold CTxMemPool.removeConflict
  split
  next txConflict hnext =>
    obtain ⟨hg, hspends⟩ := (h.nextTx _ _).1 hnext
    have ho : ∀ c, txin.prevout ∈ pool.inputsOf c ↔ c = txConflict.hash :=
      fun c => ⟨fun hc => h.eq_of_inputsOf hc hspends, fun hc => hc ▸ hspends⟩
    simp only [ho]
    split
    next hne =>
      have hm : txConflict.hash ∈ pool.mapTx := mem_of_mem_inputsOf hspends
      refine ⟨(@Linked.removeRecursive pool txConflict 0 h hm).1, fun k => ?_⟩
      rw [(h.removeRecursive hm).2]
      refine and_congr_right fun _ => ⟨fun hno c _ hc => hc ▸ hno, fun hno => hno _ hne rfl⟩
    next heq =>
      refine ⟨h.within, fun k => ⟨fun hk => ⟨hk, fun c hc hsp => ?_⟩, And.left⟩⟩
      exact (hc (hsp.trans (not_not.1 heq))).elim
  next hnext =>
    refine ⟨h.within, fun k => ⟨fun hk => ⟨hk, fun c _ hsp => ?_⟩, And.left⟩⟩
    obtain ⟨spender, hspe, -⟩ := h.exists_nextTx hsp
    rw [hnext] at hspe
    cases hspe

/-- What goes for a list of inputs. A line of descent that ends in an entry that has stayed so far
has stayed as a whole, so the inputs can be taken one after the other. -/
theorem Linked.foldl_removeConflict (h : pool.Linked) (vin : List CTxIn) :
    (vin.foldl (fun pool txin => pool.removeConflict tx txin) pool).Within pool ∧
      ∀ k, k ∈ (vin.foldl (fun pool txin => pool.removeConflict tx txin) pool).mapTx ↔
        k ∈ pool.mapTx ∧ ∀ c, c ≠ tx.hash → ∀ txin ∈ vin,
          ¬ (txin.prevout ∈ pool.inputsOf c ∧ pool.Descends c k) := by
  induction vin generalizing pool with
  | nil => exact ⟨h.within, by simp⟩
  | cons txin vin ih =>
    obtain ⟨hfirst, hm⟩ := @Linked.removeConflict pool tx txin h
    obtain ⟨hr, hi⟩ := ih hfirst.linked
    rw [List.foldl_cons]
    refine ⟨hr.trans hfirst, fun k => ?_⟩
    have hli : k ∈ (pool.removeConflict tx txin).mapTx → ∀ (c : UInt256) (txin' : CTxIn),
        (txin'.prevout ∈ (pool.removeConflict tx txin).inputsOf c ∧
          (pool.removeConflict tx txin).Descends c k) ↔
        (txin'.prevout ∈ pool.inputsOf c ∧ pool.Descends c k) := by
      intro hk c txin'
      refine hfirst.leads_iff fun x hsp hcx hxk => (hm x).2 ⟨?_, fun c' hne hc' hc'x => ?_⟩
      · exact mem_of_descends (mem_of_mem_inputsOf hsp) hcx
      · exact ((hm k).1 hk).2 c' hne hc' (hc'x.trans hxk)
    rw [hi]
    constructor
    · rintro ⟨hk, hno⟩
      refine ⟨((hm k).1 hk).1, fun c hne txin' ht' hl => ?_⟩
      rcases List.mem_cons.1 ht' with rfl | ht'
      · exact ((hm k).1 hk).2 c hne hl.1 hl.2
      · exact hno c hne txin' ht' ((hli hk c txin').2 hl)
    · rintro ⟨hk, hno⟩
      have hst : k ∈ (pool.removeConflict tx txin).mapTx :=
        (hm k).2 ⟨hk, fun c hne hsp hck => hno c hne txin List.mem_cons_self ⟨hsp, hck⟩⟩
      refine ⟨hst, fun c hne txin' ht' hl => ?_⟩
      exact hno c hne txin' (List.mem_cons_of_mem _ ht') ((hli hst c txin').1 hl)

theorem Linked.mem_removeConflicts (h : pool.Linked) : k ∈ (pool.removeConflicts tx).mapTx ↔
      k ∈ pool.mapTx ∧ ∀ c, pool.Conflicts tx c → ¬ pool.Descends c k := by
  rw [removeConflicts, (h.foldl_removeConflict tx.vin).2]
  refine and_congr_right fun _ => ⟨?_, ?_⟩
  · rintro hno c ⟨hne, txin, ht, hsp⟩ hck
    exact hno c hne txin ht ⟨hsp, hck⟩
  · rintro hno c hne txin ht ⟨hsp, hck⟩
    exact hno c ⟨hne, txin, ht, hsp⟩ hck

theorem Linked.within_removeConflicts (h : pool.Linked) :
    (pool.removeConflicts tx).Within pool := (h.foldl_removeConflict tx.vin).1

theorem Linked.within_removeEntry (h : pool.Linked) (hash : UInt256) :
    (pool.removeEntry hash).Within pool := by
  unfold removeEntry
  split
  · exact h.within_removeStaged [hash]
  · exact h.within

theorem mem_removeEntry {hash : UInt256} :
    k ∈ (pool.removeEntry hash).mapTx ↔ k ∈ pool.mapTx ∧ k ≠ hash := by
  unfold removeEntry
  split
  · rw [mem_removeStaged, List.mem_singleton]
  next hno =>
    refine ⟨fun hk => ⟨hk, fun heq => hno (TreeMap.contains_iff_mem.2 (heq ▸ hk))⟩, And.left⟩

theorem Linked.within_removeWithConflicts (h : pool.Linked) :
    (pool.removeWithConflicts tx).Within pool := by
  have hfirst := h.within_removeEntry tx.hash
  exact hfirst.linked.within_removeConflicts.trans hfirst

end Conflicts

section Loops

variable {pool q : CTxMemPool} {tx : CTransaction} {vtx pre post : List CTransaction} {k : UInt256}

/-- How the transactions of a block lie in the pool: with an entry its parents are in the block as
well, and no entry of the block conflicts with another transaction of the block. -/
structure Confirms (pool : CTxMemPool) (vtx : List CTransaction) : Prop where
  linked : pool.Linked
  parents : ∀ child ∈ vtx.map CTransaction.hash, ∀ parent ∈ pool.mapTx,
    pool.SpendsFrom child parent → parent ∈ vtx.map CTransaction.hash
  conflicts : ∀ tx ∈ vtx, ∀ c, pool.Conflicts tx c → c ∉ vtx.map CTransaction.hash

/-- What descends from an entry outside the block is outside of it. -/
theorem Confirms.notMem_of_descends (h : pool.Confirms vtx) {a b : UInt256} (ha : a ∈ pool.mapTx)
    (hbl : a ∉ vtx.map CTransaction.hash) (hab : pool.Descends a b) :
    b ∉ vtx.map CTransaction.hash := by
  induction hab with
  | refl => exact hbl
  | tail hax hspends ih =>
    exact fun hb => ih (h.parents _ hb _ (mem_of_descends ha hax) hspends)

/-- What is left of a pool after some transactions of a block. -/
structure Survives (pool : CTxMemPool) (pre : List CTransaction) (q : CTxMemPool) : Prop where
  within : q.Within pool
  mem : ∀ k, k ∈ q.mapTx ↔ k ∈ pool.mapTx ∧ k ∉ pre.map CTransaction.hash ∧
    ∀ tx ∈ pre, ∀ c, pool.Conflicts tx c → ¬ pool.Descends c k

/-- One more transaction of the block. An entry it conflicts with leads to the same descendants as
at the start: none of them is in the block, and none has gone before one that is still there. -/
theorem Survives.removeWithConflicts (h : pool.Survives pre q) (hco : pool.Confirms vtx)
    (hp : ∀ t ∈ pre, t ∈ vtx) (htx : tx ∈ vtx) :
    pool.Survives (pre ++ [tx]) (q.removeWithConflicts tx) := by
  have he := h.within.linked.within_removeEntry tx.hash
  have hw := he.trans h.within
  have hm : ∀ k, k ∈ (q.removeEntry tx.hash).mapTx ↔ k ∈ pool.mapTx ∧
      k ∉ (pre ++ [tx]).map CTransaction.hash ∧
      ∀ t ∈ pre, ∀ c, pool.Conflicts t c → ¬ pool.Descends c k := by
    intro k
    rw [mem_removeEntry, h.mem]
    simp only [List.map_append, List.mem_append, List.map_singleton, List.mem_singleton, not_or]
    tauto
  have hsu : ∀ t ∈ pre ++ [tx], t ∈ vtx := by
    intro t ht
    rcases List.mem_append.1 ht with ht | ht
    · exact hp t ht
    · exact List.mem_singleton.1 ht ▸ htx
  refine ⟨h.within.linked.within_removeWithConflicts.trans h.within, fun k => ?_⟩
  rw [CTxMemPool.removeWithConflicts, he.linked.mem_removeConflicts]
  have hl : k ∈ (q.removeEntry tx.hash).mapTx → ∀ c, c ≠ tx.hash → ∀ txin ∈ tx.vin,
      ((txin.prevout ∈ (q.removeEntry tx.hash).inputsOf c ∧ (q.removeEntry tx.hash).Descends c k) ↔
        (txin.prevout ∈ pool.inputsOf c ∧ pool.Descends c k)) := by
    intro hk c hne txin htxi
    refine hw.leads_iff fun x hsp hcx hxk => (hm x).2 ?_
    have hc : c ∈ pool.mapTx := mem_of_mem_inputsOf hsp
    have hout : c ∉ vtx.map CTransaction.hash := hco.conflicts tx htx c ⟨hne, txin, htxi, hsp⟩
    refine ⟨mem_of_descends hc hcx, fun hx => ?_, fun t ht c' hc' hc'x => ?_⟩
    · refine hco.notMem_of_descends hc hout hcx ?_
      obtain ⟨t, ht, rfl⟩ := List.mem_map.1 hx
      exact List.mem_map_of_mem (hsu t ht)
    · exact ((hm k).1 hk).2.2 t ht c' hc' (hc'x.trans hxk)
  constructor
  · rintro ⟨hk, hno⟩
    obtain ⟨hin, hf, ho⟩ := (hm k).1 hk
    refine ⟨hin, hf, fun t ht c hc hck => ?_⟩
    rcases List.mem_append.1 ht with ht | ht
    · exact ho t ht c hc hck
    · obtain rfl := List.mem_singleton.1 ht
      obtain ⟨hne, txin, htxi, hsp⟩ := hc
      obtain ⟨hsp, hck⟩ := (hl hk c hne txin htxi).2 ⟨hsp, hck⟩
      exact hno c ⟨hne, txin, htxi, hsp⟩ hck
  · rintro ⟨hin, hf, hno⟩
    have hk : k ∈ (q.removeEntry tx.hash).mapTx :=
      (hm k).2 ⟨hin, hf, fun t ht => hno t (List.mem_append_left _ ht)⟩
    refine ⟨hk, ?_⟩
    rintro c ⟨hne, txin, htxi, hsp⟩ hck
    obtain ⟨hsp, hck⟩ := (hl hk c hne txin htxi).1 ⟨hsp, hck⟩
    exact hno tx (by simp) c ⟨hne, txin, htxi, hsp⟩ hck

/-- The loop over the block. -/
theorem Confirms.survives (h : pool.Confirms vtx) :
    pool.Survives vtx (vtx.foldl CTxMemPool.removeWithConflicts pool) := by
  suffices hl : ∀ post pre q, pool.Survives pre q → vtx = pre ++ post →
      pool.Survives (pre ++ post) (post.foldl CTxMemPool.removeWithConflicts q) by
    have hst : pool.Survives [] pool := ⟨h.linked.within, by simp⟩
    exact hl vtx [] pool hst rfl
  intro post
  induction post with
  | nil =>
    intro pre q hq _
    rwa [List.append_nil]
  | cons tx post ih =>
    intro pre q hq hsp
    rw [List.foldl_cons, List.append_cons]
    refine ih (pre ++ [tx]) _ (hq.removeWithConflicts h ?_ ?_) (by rw [hsp, List.append_cons])
    · intro t ht
      rw [hsp]
      exact List.mem_append_left _ ht
    · simp [hsp]

/-- An entry of the pool has no conflicts in it, so the loop over entries takes out these only. -/
theorem Within.foldl_removeWithConflicts (h : q.Within pool) (hp : pool.Linked)
    {trans : List CTransaction} (htr : ∀ tx ∈ trans, pool.mapTx[tx.hash]? = some tx) :
    (trans.foldl CTxMemPool.removeWithConflicts q).Within pool ∧
      ∀ k, k ∈ (trans.foldl CTxMemPool.removeWithConflicts q).mapTx ↔
        k ∈ q.mapTx ∧ k ∉ trans.map CTransaction.hash := by
  induction trans generalizing q with
  | nil => exact ⟨h, by simp⟩
  | cons tx trans ih =>
    have he := h.linked.within_removeEntry tx.hash
    have hf : ∀ c, ¬ (q.removeEntry tx.hash).Conflicts tx c := by
      rintro c ⟨hne, txin, htx, hsp⟩
      have ho : txin.prevout ∈ pool.inputsOf tx.hash := by
        rw [inputsOf, htr tx List.mem_cons_self]
        exact List.mem_map_of_mem htx
      exact hne (hp.eq_of_inputsOf ((he.trans h).mem_inputsOf.1 hsp).2 ho)
    obtain ⟨hr, hm⟩ := ih (h.linked.within_removeWithConflicts.trans h)
      fun t ht => htr t (List.mem_cons_of_mem _ ht)
    refine ⟨hr, fun k => ?_⟩
    rw [List.foldl_cons, hm, CTxMemPool.removeWithConflicts, he.linked.mem_removeConflicts,
      mem_removeEntry]
    simp only [hf, false_imp_iff, implies_true, and_true, List.map_cons, List.mem_cons, not_or,
      and_assoc]

end Loops

section Displaced

variable (env : Env) (g : AssetGlobals) (tip : TreeMap COutPoint Coin) (pool : CTxMemPool)
  (data : ConnectedBlockAssetData) {tx : CTransaction}

/-- The entry is there and fails the check. -/
def Fails (fails : CTransaction → Bool) (hash : UInt256) : Prop :=
  ∃ tx, pool.mapTx[hash]? = some tx ∧ fails tx = true

/-- The entries that the asset data of a block takes out of the pool. -/
inductive Displaced (hash : UInt256) : Prop where
  | newAsset (name : Str) (hname : name ∈ data.newAssetsToAdd)
    (hissues : pool.mapAssetToHash[name]? = some hash)
  | verifier (name : Str) (hname : name ∈ data.newVerifiersToAdd)
    (hmoves : hash ∈ pool.verifierChanged.itemsOf name)
    (hfails : pool.Fails (failsCheckTransaction env) hash)
  | qualifier (key : Str × Str) (hkey : key ∈ data.newQualifiersToAdd)
    (hpays : hash ∈ pool.qualifiersChanged.itemsOf key.2)
    (hfails : pool.Fails (failsCheckTransaction env) hash)
  | globalFreeze (name : Str) (hname : data.newGlobalRestrictionsToAdd[name]? = some .globalFreeze)
    (hmoves : hash ∈ pool.assetMarkedGlobalFrozen.itemsOf name)
    (hfails : pool.Fails (failsCheckTransaction env) hash)
  | sameFreeze (name : Str) (hname : data.newGlobalRestrictionsToAdd[name]? = some .globalFreeze)
    (hfreezes : hash ∈ pool.globalFreezing.itemsOf name)
  | sameUnfreeze (name : Str)
    (hname : data.newGlobalRestrictionsToAdd[name]? = some .globalUnfreeze)
    (hunfreezes : hash ∈ pool.globalUnFreezing.itemsOf name)
  | frozenAddress (name address : Str)
    (hkey : data.newAddressRestrictionsToAdd[(name, address)]? = some .freezeAddress)
    (hspends : hash ∈ pool.addressesMarkedFrozen.itemsOf (address, name))
    (hfails : pool.Fails (pool.failsCheckTxAssets env g tip) hash)

variable {env g tip pool data} {marked : Removing} {S : UInt256 → Prop}

/-- The marked transactions are the entries with a property, and their ids are remembered. -/
structure Marks (pool : CTxMemPool) (marked : Removing) (S : UInt256 → Prop) : Prop where
  trans : ∀ tx, tx ∈ marked.trans ↔ pool.mapTx[tx.hash]? = some tx ∧ S tx.hash
  ids : ∀ hash ∈ pool.mapTx, hash ∈ marked.setAlreadyRemoving ↔ S hash

theorem Marks.congr (h : pool.Marks marked S) {T : UInt256 → Prop}
    (hST : ∀ hash ∈ pool.mapTx, (S hash ↔ T hash)) : pool.Marks marked T where
  trans tx := by
    rw [h.trans]
    refine and_congr_right fun hg => hST _ (TreeMap.mem_iff_isSome_getElem?.2 ?_)
    rw [hg]
    rfl
  ids hash hm := (h.ids hash hm).trans (hST hash hm)

theorem Marks.push (h : pool.Marks marked S) (hl : pool.Linked) {hash : UInt256}
    (hg : pool.mapTx[hash]? = some tx) :
    pool.Marks (marked.push hash tx) fun k => S k ∨ k = hash where
  trans t := by
    have heq : t = tx ↔ pool.mapTx[t.hash]? = some t ∧ t.hash = hash := by
      constructor
      · rintro rfl
        obtain rfl := hl.hashes hash t hg
        exact ⟨hg, rfl⟩
      · rintro ⟨ht, rfl⟩
        rw [hg] at ht
        exact (Option.some.inj ht).symm
    rw [Removing.push, List.mem_append, List.mem_singleton, h.trans, heq]
    tauto
  ids k hk := by
    rw [Removing.push, mem_set_insert, h.ids k hk, or_comm]

/-- The rule for the loops that mark entries. -/
theorem Marks.foldl {α : Type} {step : Removing → α → Removing} {T : α → UInt256 → Prop}
    (hstep : ∀ marked S a, pool.Marks marked S → pool.Marks (step marked a) fun k => S k ∨ T a k)
    (items : List α) (h : pool.Marks marked S) :
    pool.Marks (items.foldl step marked) fun k => S k ∨ ∃ a ∈ items, T a k := by
  induction items generalizing marked S with
  | nil => exact h.congr (by simp)
  | cons a items ih =>
    refine (ih (hstep marked S a h)).congr fun k _ => ?_
    simp only [List.mem_cons, exists_eq_or_imp, or_assoc]

theorem Marks.markEntry (h : pool.Marks marked S) (hl : pool.Linked)
    (fails : CTransaction → Bool) (hash : UInt256) :
    pool.Marks (pool.markEntry fails marked hash) fun k => S k ∨ k = hash ∧ pool.Fails fails k := by
  unfold CTxMemPool.markEntry
  split
  next hn =>
    refine h.congr fun k _ => ⟨Or.inl, fun hor => hor.resolve_right ?_⟩
    rintro ⟨rfl, tx, hg, -⟩
    rw [hn] at hg
    cases hg
  next tx hg =>
    have hfails : pool.Fails fails hash ↔ fails tx = true := by simp [Fails, hg]
    split
    next hp =>
      refine (h.push hl hg).congr fun k _ => or_congr_right ⟨?_, And.left⟩
      rintro rfl
      exact ⟨rfl, hfails.2 (by simp_all)⟩
    next hke =>
      refine h.congr fun k hk => ⟨Or.inl, fun hor => hor.elim id ?_⟩
      rintro ⟨rfl, hf⟩
      rw [hfails] at hf
      rw [← h.ids k hk, ← TreeSet.contains_iff_mem]
      simpa [hf] using hke

theorem Marks.markEntries (h : pool.Marks marked S) (hl : pool.Linked)
    (fails : CTransaction → Bool) (hashes : TreeSet UInt256) :
    pool.Marks (pool.markEntries fails marked hashes) fun k =>
      S k ∨ k ∈ hashes ∧ pool.Fails fails k := by
  refine (h.foldl (fun _ _ hash hm => hm.markEntry hl fails hash) hashes.toList).congr
    fun k _ => or_congr_right ?_
  simp only [TreeSet.mem_toList]
  constructor
  · rintro ⟨hash, hme, rfl, hfails⟩
    exact ⟨hme, hfails⟩
  · rintro ⟨hme, hfails⟩
    exact ⟨k, hme, rfl, hfails⟩

theorem Marks.markNewAsset (h : pool.Marks marked S) (hl : pool.Linked) (name : Str) :
    pool.Marks (pool.markNewAsset marked name) fun k =>
      S k ∨ pool.mapAssetToHash[name]? = some k := by
  unfold CTxMemPool.markNewAsset
  split
  next hn => exact h.congr (by simp [hn])
  next hash hname =>
    rw [hname]
    split
    next hn =>
      refine h.congr fun k hk => ⟨Or.inl, fun hor => hor.resolve_right ?_⟩
      rintro ⟨⟩
      rw [TreeMap.mem_iff_isSome_getElem?, hn] at hk
      cases hk
    next tx hg =>
      exact (h.push hl hg).congr fun k _ => by rw [Option.some.injEq, eq_comm]

variable (env) in
theorem Marks.markGlobalRestriction (h : pool.Marks marked S) (hl : pool.Linked)
    (item : Str × RestrictedType) :
    pool.Marks (pool.markGlobalRestriction env marked item) fun k =>
      S k ∨ (item.2 = .globalFreeze ∧ (k ∈ pool.assetMarkedGlobalFrozen.itemsOf item.1 ∧
          pool.Fails (failsCheckTransaction env) k ∨ k ∈ pool.globalFreezing.itemsOf item.1)) ∨
        item.2 = .globalUnfreeze ∧ k ∈ pool.globalUnFreezing.itemsOf item.1 := by
  have ht : ∀ k ∈ pool.mapTx, pool.Fails (fun _ => true) k := by
    intro k hk
    obtain ⟨tx, htx⟩ := exists_getElem? hk
    exact ⟨tx, htx, rfl⟩
  obtain ⟨name, type⟩ := item
  cases type with
  | globalFreeze =>
    refine ((h.markEntries hl _ _).markEntries hl _ _).congr fun k hk => ?_
    simp [ht k hk, or_assoc]
  | globalUnfreeze =>
    refine (h.markEntries hl _ _).congr fun k hk => ?_
    simp [ht k hk]
  | freezeAddress => exact h.congr (by simp)
  | unfreezeAddress => exact h.congr (by simp)

variable (env g tip) in
theorem Marks.markAddressRestriction (h : pool.Marks marked S) (hl : pool.Linked)
    (item : (Str × Str) × RestrictedType) :
    pool.Marks (pool.markAddressRestriction env g tip marked item) fun k =>
      S k ∨ item.2 = .freezeAddress ∧ k ∈ pool.addressesMarkedFrozen.itemsOf (item.1.2, item.1.1) ∧
        pool.Fails (pool.failsCheckTxAssets env g tip) k := by
  obtain ⟨key, type⟩ := item
  cases type with
  | freezeAddress => exact (h.markEntries hl _ _).congr (by simp)
  | unfreezeAddress => exact h.congr (by simp)
  | globalFreeze => exact h.congr (by simp)
  | globalUnfreeze => exact h.congr (by simp)

variable (env g tip data) in
/-- The transactions that go for the asset data are the displaced entries. -/
theorem Linked.mem_assetConflicts (h : pool.Linked) : tx ∈ pool.assetConflicts env g tip data ↔
      pool.mapTx[tx.hash]? = some tx ∧ pool.Displaced env g tip data tx.hash := by
  have hst : pool.Marks {} fun _ => False := ⟨by simp, by simp⟩
  have has := hst.foldl (fun _ _ name hm => hm.markNewAsset h name) data.newAssetsToAdd.keys
  have hv := has.foldl (fun _ _ name hm =>
    hm.markEntries h (failsCheckTransaction env) (pool.verifierChanged.itemsOf name))
    data.newVerifiersToAdd.keys
  have hq := hv.foldl (fun _ _ (key : Str × Str) hm =>
    hm.markEntries h (failsCheckTransaction env) (pool.qualifiersChanged.itemsOf key.2))
    data.newQualifiersToAdd.keys
  have hg := hq.foldl (fun _ _ item hm => hm.markGlobalRestriction env h item)
    data.newGlobalRestrictionsToAdd.toList
  have ha := hg.foldl (fun _ _ item hm => hm.markAddressRestriction env g tip h item)
    data.newAddressRestrictionsToAdd.toList
  refine (ha.trans tx).trans (and_congr_right fun _ => ?_)
  simp only [TreeMap.mem_keys, Prod.exists, TreeMap.mem_toList_iff_getElem?_eq_some, false_or]
  constructor
  · rintro ((((⟨name, hname, hissues⟩ | ⟨name, hname, hmoves, hfails⟩) |
      ⟨name, address, hkey, hpays, hfails⟩) | ⟨name, type, hname, ht⟩) |
      ⟨name, address, type, hkey, rfl, hspends, hfails⟩)
    · exact .newAsset name hname hissues
    · exact .verifier name hname hmoves hfails
    · exact .qualifier (name, address) hkey hpays hfails
    · rcases ht with ⟨rfl, ⟨hmoves, hfails⟩ | hfreezes⟩ | ⟨rfl, hunfreezes⟩
      · exact .globalFreeze name hname hmoves hfails
      · exact .sameFreeze name hname hfreezes
      · exact .sameUnfreeze name hname hunfreezes
    · exact .frozenAddress name address hkey hspends hfails
  · rintro (⟨name, hname, hissues⟩ | ⟨name, hname, hmoves, hfails⟩ | ⟨key, hkey, hpays, hfails⟩ |
      ⟨name, hname, hmoves, hfails⟩ | ⟨name, hname, hfreezes⟩ | ⟨name, hname, hunfreezes⟩ |
      ⟨name, address, hkey, hspends, hfails⟩)
    · exact .inl (.inl (.inl (.inl ⟨name, hname, hissues⟩)))
    · exact .inl (.inl (.inl (.inr ⟨name, hname, hmoves, hfails⟩)))
    · exact .inl (.inl (.inr ⟨key.1, key.2, hkey, hpays, hfails⟩))
    · exact .inl (.inr ⟨name, _, hname, .inl ⟨rfl, .inl ⟨hmoves, hfails⟩⟩⟩)
    · exact .inl (.inr ⟨name, _, hname, .inl ⟨rfl, .inr hfreezes⟩⟩)
    · exact .inl (.inr ⟨name, _, hname, .inr ⟨rfl, hunfreezes⟩⟩)
    · exact .inr ⟨name, address, _, hkey, rfl, hspends, hfails⟩

end Displaced

section Closure

variable {rules : BlockRules} {env : Env} {g : AssetGlobals} {mempool : MempoolAssets}
  {node : NodeState} {nHeight : Nat} {base : TreeMap COutPoint Coin} {cache : CAssetsCache}
  {block : CBlock} {conn : Connected} {pool : CTxMemPool} {outpoint : COutPoint} {hash : UInt256}
  {vtx : List CTransaction} {tx : CTransaction} {tip : TreeMap COutPoint Coin}
  {data : ConnectedBlockAssetData}

/-- The outpoint is one of the unspent outputs or of a transaction in the pool. -/
def HasOutput (pool : CTxMemPool) (base : TreeMap COutPoint Coin) (outpoint : COutPoint) : Prop :=
  (CCoinsViewCache.getCoin { base } outpoint).isSome ∨
    ∃ tx, pool.mapTx[outpoint.hash]? = some tx ∧ outpoint.n.toNat < tx.vout.length

/-- Each input of each transaction is an output of the unspent ones or of the pool. -/
def InputsClosed (pool : CTxMemPool) (base : TreeMap COutPoint Coin) : Prop :=
  ∀ hash, ∀ outpoint ∈ pool.inputsOf hash, pool.HasOutput base outpoint

theorem hasOutput_iff : pool.HasOutput base outpoint ↔
    (CCoinsViewCache.getCoin { base } outpoint).isSome ∨
      (pool.mapTx[outpoint.hash]?.any fun tx => outpoint.n.toNat < tx.vout.length) = true := by
  simp [HasOutput, Option.any_eq_true]

instance : Decidable (pool.HasOutput base outpoint) := decidable_of_iff _ hasOutput_iff.symm

theorem inputsClosed_iff : pool.InputsClosed base ↔
    ∀ row ∈ pool.mapTx.toList, ∀ txin ∈ row.2.vin, pool.HasOutput base txin.prevout := by
  constructor
  · rintro h ⟨hash, tx⟩ hr txin ht
    refine h hash txin.prevout ?_
    rw [inputsOf, TreeMap.mem_toList_iff_getElem?_eq_some.1 hr]
    exact List.mem_map_of_mem ht
  · intro h hash outpoint ho
    obtain ⟨tx, hg, txin, ht, rfl⟩ := mem_inputsOf_iff.1 ho
    exact h (hash, tx) (TreeMap.mem_toList_iff_getElem?_eq_some.2 hg) txin ht

instance : Decidable (pool.InputsClosed base) := decidable_of_iff _ inputsClosed_iff.symm

/-- A pool beside a chain and the next block: no transaction of the pool is on the chain or a
coinbase, and the ids of the pool and of the block are new and name one transaction each. -/
structure BesideBlock (pool : CTxMemPool) (base : TreeMap COutPoint Coin)
    (vtx : List CTransaction) : Prop where
  linked : pool.Linked
  unconfirmed : ∀ hash ∈ pool.mapTx, NewId base hash
  noCoinBase : ∀ (hash : UInt256) (tx : CTransaction), pool.mapTx[hash]? = some tx →
    tx.isCoinBase = false
  newIds : NewIds base vtx
  sameId : ∀ tx ∈ vtx, ∀ t, pool.mapTx[tx.hash]? = some t → t = tx

theorem BesideBlock.entry_eq (h : pool.BesideBlock base vtx) (htx : tx ∈ vtx)
    (hm : tx.hash ∈ pool.mapTx) : pool.mapTx[tx.hash]? = some tx := by
  obtain ⟨t, ht⟩ := exists_getElem? hm
  rw [ht, h.sameId tx htx t ht]

variable (nHeight) in
/-- Where a transaction of the block is an entry, the entry spends what the transaction spends. -/
theorem BesideBlock.mem_spent (h : pool.BesideBlock base vtx) (htx : tx ∈ vtx)
    (ho : outpoint ∈ pool.inputsOf tx.hash) :
    tx.isCoinBase = false ∧ outpoint ∈ tx.vin.map CTxIn.prevout ∧
      outpoint ∈ (tx.ledgerEntry nHeight).spent := by
  have hg := h.entry_eq htx (mem_of_mem_inputsOf ho)
  have hcb := h.noCoinBase _ _ hg
  have hin : outpoint ∈ tx.vin.map CTxIn.prevout := by
    rw [inputsOf, hg] at ho
    exact ho
  refine ⟨hcb, hin, ?_⟩
  rw [CTransaction.ledgerEntry, hcb]
  exact hin

theorem notNull_of_checkTransaction (h : checkTransaction env tx true false true = .ok ())
    (hcb : tx.isCoinBase = false) : ∀ txin ∈ tx.vin, txin.prevout.isNull = false := by
  simp only [checkTransaction, rejectIf, bind_eq_ok, checkTxInShape, hcb, Bool.false_eq_true,
    if_false] at h
  obtain ⟨_, -, _, -, _, -, _, -, _, -, _, -, _, ⟨_, -, hn⟩, -⟩ := h
  simpa using hn

theorem isNull_of_isCoinBase (h : tx.isCoinBase = true) :
    ∀ txin ∈ tx.vin, txin.prevout.isNull = true := by
  unfold CTransaction.isCoinBase at h
  split at h
  next txin hv => simpa [hv] using h
  · cases h

/-- A connected block takes in the parents of what it confirms, and nothing it confirms conflicts
with another of its transactions. -/
theorem BesideBlock.confirms (h : pool.BesideBlock base block.vtx)
    (hg : block.header.getHash rules.params ≠ rules.params.hashGenesisBlock)
    (hco : connectBlock rules env g mempool node nHeight { view := { base }, cache } block =
      .ok conn) : pool.Confirms block.vtx where
  linked := h.linked
  parents := by
    rintro child hch parent hp ⟨outpoint, ho, rfl⟩
    obtain ⟨tx, htx, rfl⟩ := List.mem_map.1 hch
    obtain ⟨pre, post, hsp⟩ := List.append_of_mem htx
    have ha := (follows_connectBlock hg h.newIds hco).2
      (pre.map (CTransaction.ledgerEntry nHeight)) (tx.ledgerEntry nHeight)
      (post.map (CTransaction.ledgerEntry nHeight)) (by simp [hsp]) outpoint
      (h.mem_spent nHeight htx ho).2.2
    rcases Ledger.isSome_of_run ha with hb | ⟨e, he, hkey⟩
    · rw [h.unconfirmed _ hp outpoint rfl] at hb
      cases hb
    · obtain ⟨t, ht, rfl⟩ := List.mem_map.1 he
      rw [hash_of_mem_keys hkey]
      exact List.mem_map_of_mem (hsp ▸ List.mem_append_left _ ht)
  conflicts := by
    rintro tx htx c ⟨hne, txin, htxi, hspe⟩ hc
    obtain ⟨t, ht, rfl⟩ := List.mem_map.1 hc
    obtain ⟨hcb, hin, ht'⟩ := h.mem_spent nHeight ht hspe
    cases htxc : tx.isCoinBase with
    | true =>
      have hn := isNull_of_isCoinBase htxc txin htxi
      obtain ⟨own, how, heq⟩ := List.mem_map.1 hin
      obtain ⟨-, -, hche⟩ := transactions_of_checkBlock (connectBlock_cases hco).1
      have hno := notNull_of_checkTransaction (hche t ht) hcb own how
      rw [heq, hn] at hno
      cases hno
    | false =>
      have hm : txin.prevout ∈ (tx.ledgerEntry nHeight).spent := by
        rw [CTransaction.ledgerEntry, htxc]
        exact List.mem_map_of_mem htxi
      have ha := (follows_connectBlock hg h.newIds hco).2
      refine notMem_spent h.newIds ha ht htx ?_ ht' hm
      rintro rfl
      exact hne rfl

/-- The entries that a block neither confirms nor displaces, and that do not descend from one that
conflicts with the block. -/
structure Stays (env : Env) (g : AssetGlobals) (tip : TreeMap COutPoint Coin) (pool : CTxMemPool)
    (vtx : List CTransaction) (data : ConnectedBlockAssetData) (hash : UInt256) : Prop where
  mem : hash ∈ pool.mapTx
  notMined : hash ∉ vtx.map CTransaction.hash
  notDisplaced : ¬ pool.Displaced env g tip data hash
  noConflict : ∀ tx ∈ vtx, ∀ c, pool.Conflicts tx c → ¬ pool.Descends c hash

/-- What `removeForBlock` leaves. -/
theorem Confirms.removeForBlock (h : pool.Confirms vtx) :
    (pool.removeForBlock env g tip vtx data).Within pool ∧
      ∀ k, k ∈ (pool.removeForBlock env g tip vtx data).mapTx ↔ pool.Stays env g tip vtx data k := by
  obtain ⟨hw, hme⟩ := h.survives.within.foldl_removeWithConflicts h.linked
    fun tx htx => ((h.linked.mem_assetConflicts env g tip data).1 htx).1
  refine ⟨hw, fun k => (hme k).trans ?_⟩
  have hdi : k ∈ pool.mapTx → (k ∈ (pool.assetConflicts env g tip data).map
      CTransaction.hash ↔ pool.Displaced env g tip data k) := by
    intro hk
    obtain ⟨tx, htx⟩ := exists_getElem? hk
    obtain rfl := h.linked.hashes k tx htx
    constructor
    · intro hin
      obtain ⟨t, ht, heq⟩ := List.mem_map.1 hin
      exact heq ▸ ((h.linked.mem_assetConflicts env g tip data).1 ht).2
    · exact fun hd => List.mem_map_of_mem ((h.linked.mem_assetConflicts env g tip data).2 ⟨htx, hd⟩)
  rw [h.survives.mem]
  constructor
  · rintro ⟨⟨hk, hm, hno⟩, hd⟩
    exact ⟨hk, hm, fun hdis => hd ((hdi hk).2 hdis), hno⟩
  · rintro ⟨hk, hm, hd, hno⟩
    exact ⟨⟨hk, hm, hno⟩, fun hin => hd ((hdi hk).1 hin)⟩

/-- No transaction of the block spends an input of an entry that stays. -/
theorem Stays.notMem_spent (h : pool.Stays env g tip vtx data hash)
    (ho : outpoint ∈ pool.inputsOf hash) :
    ∀ e ∈ vtx.map (CTransaction.ledgerEntry nHeight), outpoint ∉ e.spent := by
  intro e he hsp
  obtain ⟨tx, htx, rfl⟩ := List.mem_map.1 he
  have hin : outpoint ∈ tx.vin.map CTxIn.prevout := by
    unfold CTransaction.ledgerEntry at hsp
    split at hsp
    · cases hsp
    · exact hsp
  obtain ⟨txin, ht, rfl⟩ := List.mem_map.1 hin
  refine h.noConflict tx htx hash ⟨?_, txin, ht, ho⟩ .refl
  rintro rfl
  exact h.notMined (List.mem_map_of_mem htx)

/-- Among the parents of what stays, those that the block confirms have a spendable output there,
and those that its asset data displaces are confirmed. -/
def KeepsParents (env : Env) (g : AssetGlobals) (tip : TreeMap COutPoint Coin) (pool : CTxMemPool)
    (vtx : List CTransaction) (data : ConnectedBlockAssetData) : Prop :=
  ∀ hash, pool.Stays env g tip vtx data hash → ∀ outpoint ∈ pool.inputsOf hash, ∀ parent,
    pool.mapTx[outpoint.hash]? = some parent →
      (outpoint.hash ∈ vtx.map CTransaction.hash → ∃ out, (outpoint, out) ∈ parent.outpoints ∧
        CScript.isUnspendable out.scriptPubKey = false) ∧
      (pool.Displaced env g tip data outpoint.hash → outpoint.hash ∈ vtx.map CTransaction.hash)

/-- A pool whose inputs are closed stays so over a connected block exactly when the block keeps the
parents of what stays: a displaced transaction goes without its descendants, which are left with an
input that is nowhere. -/
theorem removeForBlock_inputsClosed {g' : AssetGlobals} (h : pool.BesideBlock base block.vtx)
    (hgenesis : block.header.getHash rules.params ≠ rules.params.hashGenesisBlock)
    (hconn : connectBlock rules env g mempool node nHeight { view := { base }, cache } block =
      .ok conn) (hclosed : pool.InputsClosed base) :
    (pool.removeForBlock env g' conn.st.view.flush block.vtx
        conn.st.cache.connectedBlockAssetData).InputsClosed conn.st.view.flush ↔
      pool.KeepsParents env g' conn.st.view.flush block.vtx
        conn.st.cache.connectedBlockAssetData := by
  have hcon := h.confirms hgenesis hconn
  generalize conn.st.cache.connectedBlockAssetData = data
  obtain ⟨hw, hst⟩ := @Confirms.removeForBlock env g' pool block.vtx conn.st.view.flush data
    hcon
  have ha : ∀ outpoint, _ := getCoin_after hgenesis h.newIds hconn
  generalize conn.st.view.flush = tip at hw hst ha ⊢
  constructor
  · intro hc' hash hsta outpoint ho parent hp
    have hin : outpoint.hash ∈ pool.mapTx := by
      exact mem_of_getElem? hp
    rcases hc' hash outpoint (hw.mem_inputsOf.2 ⟨(hst hash).2 hsta, ho⟩) with
      hco | ⟨tx, htx, -⟩
    · -- the coin has been created by the block, since the pool was unconfirmed
      rw [ha] at hco
      rcases Ledger.isSome_of_run hco with hb | ⟨e, he, hkey⟩
      · rw [h.unconfirmed _ hin outpoint rfl] at hb
        cases hb
      · obtain ⟨tx, htx, rfl⟩ := List.mem_map.1 he
        have hh := hash_of_mem_keys hkey
        have hm : outpoint.hash ∈ block.vtx.map CTransaction.hash :=
          hh ▸ List.mem_map_of_mem htx
        rw [hh] at hp
        obtain rfl := h.sameId tx htx parent hp
        exact ⟨fun _ => mem_keys_ledgerEntry.1 hkey, fun _ => hm⟩
    · have hpa := (hst outpoint.hash).1
        (mem_of_getElem? htx)
      exact ⟨fun hm => (hpa.notMined hm).elim, fun hdi => (hpa.notDisplaced hdi).elim⟩
  · intro hke hash outpoint ho'
    obtain ⟨hme, ho⟩ := hw.mem_inputsOf.1 ho'
    have hsta := (hst hash).1 hme
    have hu := @Stays.notMem_spent env g' nHeight pool outpoint hash block.vtx tip data hsta ho
    rcases hclosed hash outpoint ho with hco | ⟨parent, hp, hn⟩
    · left
      rw [ha]
      exact Ledger.isSome_run_of_isSome hco hu
    · obtain ⟨hsp, hd⟩ := hke hash hsta outpoint ho parent hp
      by_cases hm : outpoint.hash ∈ block.vtx.map CTransaction.hash
      · left
        obtain ⟨tx, htx, hh⟩ := List.mem_map.1 hm
        rw [← hh] at hp
        obtain rfl := h.sameId tx htx parent hp
        rw [ha]
        exact Ledger.isSome_run_of_created (List.mem_map_of_mem htx)
          (mem_keys_ledgerEntry.2 (hsp hm)) hu
      · right
        have hin : outpoint.hash ∈ pool.mapTx := by
          exact mem_of_getElem? hp
        have hpa : pool.Stays env g' tip block.vtx data outpoint.hash :=
          ⟨hin, hm, fun hdi => hm (hd hdi), fun tx htx c hc hde =>
            hsta.noConflict tx htx c hc (hde.tail ⟨outpoint, ho, rfl⟩)⟩
        refine ⟨parent, ?_, hn⟩
        rw [hw.getElem? ((hst _).2 hpa), hp]

end Closure

end CTxMemPool

/-- A transaction is new to a pool if it can be seen from the list of the entries. -/
theorem addable_of_list {pool : CTxMemPool} {tx : CTransaction} (h : tx.hash ∉ pool.mapTx ∧
    tx.hash ∉ pool.mapLinks ∧ (∀ txin ∈ tx.vin, txin.prevout.hash ≠ tx.hash) ∧
    ∀ row ∈ pool.mapTx.toList, ∀ txin ∈ row.2.vin,
      txin.prevout ∉ tx.vin.map CTxIn.prevout ∧ txin.prevout.hash ≠ tx.hash) : pool.Addable tx := by
  obtain ⟨hn, hu, ho, hr⟩ := h
  have hi : ∀ {k outpoint}, outpoint ∈ pool.inputsOf k →
      outpoint ∉ tx.vin.map CTxIn.prevout ∧ outpoint.hash ≠ tx.hash := by
    intro k outpoint hk
    obtain ⟨entry, hg, txin, ht, rfl⟩ := mem_inputsOf_iff.1 hk
    exact hr (k, entry) (TreeMap.mem_toList_iff_getElem?_eq_some.2 hg) txin ht
  exact ⟨hn, hu, fun txin ht k hk => (hi hk).1 (List.mem_map_of_mem ht), ho,
    fun k ⟨outpoint, hk, hh⟩ => (hi hk).2 hh⟩

/-- A pool is beside a block if it can be seen from the lists of both. -/
theorem besideBlock_of_lists {pool : CTxMemPool} {base : TreeMap COutPoint Coin}
    {vtx : List CTransaction} (h : pool.Linked)
    (hr : ∀ row ∈ pool.mapTx.toList, row.2.isCoinBase = false ∧
      ∀ outpoint ∈ base.keys, outpoint.hash ≠ row.1)
    (hi : NewIds base vtx) (hsa : ∀ tx ∈ vtx, pool.mapTx[tx.hash]?.all (· = tx) = true) :
    pool.BesideBlock base vtx where
  linked := h
  unconfirmed hash hm := by
    obtain ⟨tx, htx⟩ := exists_getElem? hm
    exact newId_of_keys (hr (hash, tx) (TreeMap.mem_toList_iff_getElem?_eq_some.2 htx)).2
  noCoinBase hash tx htx := (hr (hash, tx) (TreeMap.mem_toList_iff_getElem?_eq_some.2 htx)).1
  newIds := hi
  sameId tx htx t ht := by simpa [ht] using hsa tx htx

/-- Two coins, and no assets. -/
def twoCoins : TreeMap COutPoint Coin :=
  ((∅ : TreeMap COutPoint Coin).insert sampleOutPoint ⟨⟨1000 * coin, sampleScript⟩, 1, false⟩).insert
    ownerOutPoint ⟨⟨1000 * coin, sampleScript⟩, 1, false⟩

def noAssets : AssetGlobals := ⟨{}, emptyDB⟩

/-- A payment to the sample address. -/
def payTx (hash : UInt256) (coinIn : COutPoint) (value : CAmount) : CTransaction where
  hash
  nVersion := 2
  vin := [⟨coinIn, [], 0xffffffff⟩]
  vout := [⟨value, sampleScript⟩]
  nLockTime := 0

def connectIssue : Checked Connected :=
  connectBlock sampleRules runEnv noAssets {} sampleNode 10
    { view := { base := twoCoins }, cache := {} } issueBlock

def issuingPool : CTxMemPool :=
  ({} : CTxMemPool).addUnchecked (issueTx 11 sampleOutPoint (900 * coin) wholeMusic)

def payingPool : CTxMemPool := issuingPool.addUnchecked (payTx 31 ⟨11, 1⟩ (800 * coin))

/-- A pool with the issue of the block and a payment out of its change. -/
def confirmedPool : CTxMemPool :=
  { payingPool with mapAssetToHash := (∅ : StrMap UInt256).insert (str "MUSIC") 11 }

theorem besideBlock_confirmedPool : confirmedPool.BesideBlock twoCoins issueBlock.vtx := by
  have hi : CTxMemPool.Addable {} (issueTx 11 sampleOutPoint (900 * coin) wholeMusic) :=
    addable_of_list (by decide +kernel)
  have hp : issuingPool.Addable (payTx 31 ⟨11, 1⟩ (800 * coin)) := addable_of_list (by decide +kernel)
  have hl : payingPool.Linked :=
    (linked_empty.addUnchecked hi).addUnchecked hp
  exact besideBlock_of_lists ⟨hl.hashes, hl.nextTx, hl.parents, hl.children⟩ (by decide +kernel)
    (newIds_of_keys (by decide +kernel) (by decide +kernel)) (by decide +kernel)

/-- The issue is in the block, so its payment keeps its input. -/
theorem removeForBlock_inputsClosed_confirmedPool : ∃ conn, connectIssue = .ok conn ∧
      (confirmedPool.removeForBlock runEnv (noAssets.flush conn.st.cache) conn.st.view.flush
        issueBlock.vtx conn.st.cache.connectedBlockAssetData).InputsClosed conn.st.view.flush := by
  obtain ⟨conn, hc⟩ : ∃ conn, connectIssue = .ok conn := isOk_iff.1 (by decide +kernel)
  refine ⟨conn, hc, ?_⟩
  refine (removeForBlock_inputsClosed besideBlock_confirmedPool (by decide +kernel) hc
    (by decide +kernel)).2 ?_
  intro hash hst outpoint ho parent hp
  have ha : ∀ row ∈ confirmedPool.mapTx.toList, row.1 ∉ issueBlock.vtx.map CTransaction.hash →
      ∀ txin ∈ row.2.vin, txin.prevout = ⟨11, 1⟩ := by decide +kernel
  have hm : (11 : UInt256) ∈ issueBlock.vtx.map CTransaction.hash := by decide +kernel
  have hi : confirmedPool.mapTx[(11 : UInt256)]? =
      some (issueTx 11 sampleOutPoint (900 * coin) wholeMusic) := by decide +kernel
  obtain rfl : outpoint = ⟨11, 1⟩ := by
    obtain ⟨tx, hg, txin, ht, rfl⟩ := mem_inputsOf_iff.1 ho
    exact ha (hash, tx) (TreeMap.mem_toList_iff_getElem?_eq_some.2 hg) hst.notMined txin ht
  obtain rfl := Option.some.inj (hi.symm.trans hp)
  exact ⟨fun _ => ⟨⟨900 * coin, sampleScript⟩, by decide +kernel, by decide +kernel⟩, fun _ => hm⟩

/-- Another issue of the same name, and a payment out of its change, as the pool accepts them. -/
def rivalPool : CTxMemPool :=
  (acceptToMemoryPoolWorker openPolicy runEnv noAssets { base := twoCoins } 10 false false
    (acceptToMemoryPoolWorker openPolicy runEnv noAssets { base := twoCoins } 10 false false {}
      (issueTx 21 ownerOutPoint (900 * coin) wholeMusic)).1
    (payTx 22 ⟨21, 1⟩ (800 * coin))).1

/-- A block with the name takes the other issue out of the pool, but not the payment. -/
theorem removeForBlock_leaves_orphan :
    rivalPool.InputsClosed twoCoins ∧ ∃ conn, connectIssue = .ok conn ∧
      ¬ (rivalPool.removeForBlock runEnv (noAssets.flush conn.st.cache) conn.st.view.flush
        issueBlock.vtx conn.st.cache.connectedBlockAssetData).InputsClosed conn.st.view.flush := by
  have hr : connectIssue.toOption.any (fun conn => !decide
      ((rivalPool.removeForBlock runEnv (noAssets.flush conn.st.cache) conn.st.view.flush
        issueBlock.vtx conn.st.cache.connectedBlockAssetData).InputsClosed conn.st.view.flush)) =
      true := by decide +kernel
  refine ⟨by decide +kernel, ?_⟩
  obtain ⟨conn, hc, hr⟩ := exists_of_any_toOption hr
  exact ⟨conn, hc, by simpa using hr⟩

end Cmusic
