import Cmusic.Mempool

/-! The links of the memory pool: they name who spends from whom, and removals keep them so. -/
namespace Cmusic

open Std Relation Maps

namespace CTxMemPool

/-- The outpoints that an entry of the pool spends. -/
def inputsOf (pool : CTxMemPool) (hash : UInt256) : List COutPoint :=
  (pool.mapTx[hash]?.map fun tx => tx.vin.map CTxIn.prevout).getD []

/-- An entry spends an output of another transaction. -/
def SpendsFrom (pool : CTxMemPool) (child parent : UInt256) : Prop :=
  ∃ outpoint ∈ pool.inputsOf child, outpoint.hash = parent

/-- Entries are kept under their ids, no two of them spend the same outpoint, and the links are
those between the entries. -/
structure Linked (pool : CTxMemPool) : Prop where
  hashes : ∀ (hash : UInt256) (tx : CTransaction), pool.mapTx[hash]? = some tx → tx.hash = hash
  nextTx : ∀ (outpoint : COutPoint) (tx : CTransaction), pool.mapNextTx[outpoint]? = some tx ↔
    pool.mapTx[tx.hash]? = some tx ∧ outpoint ∈ pool.inputsOf tx.hash
  parents : ∀ hash ∈ pool.mapTx, ∀ parent, parent ∈ (pool.linksOf hash).parents ↔
    parent ∈ pool.mapTx ∧ pool.SpendsFrom hash parent
  children : ∀ hash ∈ pool.mapTx, ∀ child, child ∈ (pool.linksOf hash).children ↔
    child ∈ pool.mapTx ∧ pool.SpendsFrom child hash

section Links

variable {change : TxLinks → TxLinks} {links : TreeMap UInt256 TxLinks} {hash : UInt256}

theorem getD_updateLinks (links : TreeMap UInt256 TxLinks) (entry hash : UInt256) :
    (updateLinks links entry change).getD hash {} =
      if hash = entry then change (links.getD hash {}) else links.getD hash {} := by
  rw [updateLinks, TreeMap.getD_insert]
  by_cases h : hash = entry
  · simp [h]
  · simp [h, Ne.symm h]

theorem getD_updateEach {entries : List UInt256} (hn : entries.Nodup) :
    (entries.foldl (fun links entry => updateLinks links entry change) links).getD hash {} =
      if hash ∈ entries then change (links.getD hash {}) else links.getD hash {} := by
  induction entries generalizing links with
  | nil => simp
  | cons entry entries ih =>
    rw [List.nodup_cons] at hn
    rw [List.foldl_cons, ih hn.2, getD_updateLinks]
    by_cases h : hash = entry
    · subst h
      simp [hn.1]
    · simp [h]

theorem nodup_toList (s : TreeSet UInt256) : s.toList.Nodup := by
  refine TreeSet.distinct_toList.imp ?_
  rintro a _ h rfl
  exact h ReflCmp.compare_self

/-- The first loop of `UpdateForRemoveFromMempool`. -/
theorem foldl_severChildren (parentsOf : UInt256 → TreeSet UInt256) (stage : List UInt256)
    (links : TreeMap UInt256 TxLinks) (hash : UInt256) :
    let after := (stage.foldl (fun links removed => (parentsOf removed).toList.foldl
      (fun links entry => updateChild links entry (·.erase removed)) links) links).getD hash {}
    after.parents = (links.getD hash {}).parents ∧ ∀ child, child ∈ after.children ↔
        child ∈ (links.getD hash {}).children ∧ ¬ (child ∈ stage ∧ hash ∈ parentsOf child) := by
  induction stage generalizing links with
  | nil => simp
  | cons removed stage ih =>
    obtain ⟨hp, hc⟩ := ih ((parentsOf removed).toList.foldl
      (fun links entry => updateChild links entry (·.erase removed)) links)
    simp only [updateChild, getD_updateEach (nodup_toList _), TreeSet.mem_toList] at hp hc
    refine ⟨hp.trans (by split <;> rfl), fun child => (hc child).trans ?_⟩
    by_cases hh : hash ∈ parentsOf removed
    · rw [if_pos hh, mem_set_erase, List.mem_cons]
      by_cases h : child = removed
      · subst h
        tauto
      · simp [h]
    · rw [if_neg hh, List.mem_cons]
      by_cases h : child = removed
      · subst h
        tauto
      · simp [h]

/-- The second loop reads the children, which it does not change. -/
theorem foldl_severParents (stage : List UInt256) (links : TreeMap UInt256 TxLinks)
    (hash : UInt256) :
    let after := (stage.foldl (fun links removed => (links.getD removed {}).children.toList.foldl
      (fun links entry => updateParent links entry (·.erase removed)) links) links).getD hash {}
    after.children = (links.getD hash {}).children ∧
      ∀ parent, parent ∈ after.parents ↔ parent ∈ (links.getD hash {}).parents ∧
        ¬ (parent ∈ stage ∧ hash ∈ (links.getD parent {}).children) := by
  induction stage generalizing links with
  | nil => simp
  | cons removed stage ih =>
    have hsa : ∀ entry, (((links.getD removed {}).children.toList.foldl
        (fun links entry => updateParent links entry (·.erase removed)) links).getD entry
          {}).children = (links.getD entry {}).children := by
      intro entry
      simp only [updateParent, getD_updateEach (nodup_toList _)]
      split <;> rfl
    obtain ⟨hc, hp⟩ := ih ((links.getD removed {}).children.toList.foldl
      (fun links entry => updateParent links entry (·.erase removed)) links)
    refine ⟨hc.trans (hsa hash), fun parent => (hp parent).trans ?_⟩
    rw [hsa parent, List.mem_cons]
    simp only [updateParent, getD_updateEach (nodup_toList _), TreeSet.mem_toList]
    by_cases hh : hash ∈ (links.getD removed {}).children
    · rw [if_pos hh, mem_set_erase]
      by_cases h : parent = removed
      · subst h
        tauto
      · simp [h]
    · rw [if_neg hh]
      by_cases h : parent = removed
      · subst h
        tauto
      · simp [h]

end Links

section Removal

variable {pool : CTxMemPool} {hash k : UInt256} {outpoint : COutPoint} {stage : List UInt256}

/-- The asset maps do not touch the transactions and their links. -/
theorem removeUnchecked_of_some {tx : CTransaction} (htx : pool.mapTx[hash]? = some tx) :
    (pool.removeUnchecked hash).mapTx = pool.mapTx.erase hash ∧
    (pool.removeUnchecked hash).mapLinks = pool.mapLinks.erase hash ∧
    (pool.removeUnchecked hash).mapNextTx =
      (pool.inputsOf hash).foldl (fun m key => m.erase key) pool.mapNextTx := by
  have hi : pool.inputsOf hash = tx.vin.map CTxIn.prevout := by simp [inputsOf, htx]
  rw [hi, List.foldl_map]
  simp only [removeUnchecked, htx]
  unfold eraseRestricted eraseAssetName unlockReissue eraseEntry
  split <;> split <;> (try split) <;> exact ⟨rfl, rfl, rfl⟩

theorem removeUnchecked_of_none (h : pool.mapTx[hash]? = none) : pool.removeUnchecked hash = pool := by
  simp only [removeUnchecked, h]

theorem getElem?_removeUnchecked :
    (pool.removeUnchecked hash).mapTx[k]? = if k = hash then none else pool.mapTx[k]? := by
  cases htx : pool.mapTx[hash]? with
  | none =>
    rw [removeUnchecked_of_none htx]
    by_cases h : k = hash
    · rw [if_pos h, h, htx]
    · rw [if_neg h]
  | some tx => rw [(removeUnchecked_of_some htx).1, getElem?_erase_eq]

theorem linksOf_removeUnchecked (h : k ≠ hash) :
    (pool.removeUnchecked hash).linksOf k = pool.linksOf k := by
  cases htx : pool.mapTx[hash]? with
  | none => rw [removeUnchecked_of_none htx]
  | some tx =>
    rw [linksOf, (removeUnchecked_of_some htx).2.1, TreeMap.getD_eq_getD_getElem?,
      getElem?_erase_of_ne h, ← TreeMap.getD_eq_getD_getElem?, linksOf]

theorem mapNextTx_removeUnchecked : (pool.removeUnchecked hash).mapNextTx[outpoint]? =
      if outpoint ∈ pool.inputsOf hash then none else pool.mapNextTx[outpoint]? := by
  cases htx : pool.mapTx[hash]? with
  | none => simp [removeUnchecked_of_none htx, inputsOf, htx]
  | some tx => rw [(removeUnchecked_of_some htx).2.2, getElem?_foldl_erase]

theorem mem_inputsOf_removeUnchecked :
    outpoint ∈ (pool.removeUnchecked hash).inputsOf k ↔ k ≠ hash ∧ outpoint ∈ pool.inputsOf k := by
  rw [inputsOf, getElem?_removeUnchecked]
  by_cases h : k = hash
  · simp [h]
  · simp [h, inputsOf]

theorem getElem?_foldl_removeUnchecked (stage : List UInt256) (pool : CTxMemPool) :
    (stage.foldl removeUnchecked pool).mapTx[k]? = if k ∈ stage then none else pool.mapTx[k]? := by
  induction stage generalizing pool with
  | nil => simp
  | cons hash stage ih =>
    rw [List.foldl_cons, ih, getElem?_removeUnchecked]
    by_cases h : k = hash <;> simp [h]

theorem linksOf_foldl_removeUnchecked (pool : CTxMemPool) (h : k ∉ stage) :
    (stage.foldl removeUnchecked pool).linksOf k = pool.linksOf k := by
  induction stage generalizing pool with
  | nil => rfl
  | cons hash stage ih =>
    rw [List.mem_cons, not_or] at h
    rw [List.foldl_cons, ih _ h.2, linksOf_removeUnchecked h.1]

theorem mapNextTx_foldl_removeUnchecked (stage : List UInt256) (pool : CTxMemPool) :
    (stage.foldl removeUnchecked pool).mapNextTx[outpoint]? =
      if ∃ removed ∈ stage, outpoint ∈ pool.inputsOf removed then none
      else pool.mapNextTx[outpoint]? := by
  induction stage generalizing pool with
  | nil => simp
  | cons hash stage ih =>
    rw [List.foldl_cons, ih, mapNextTx_removeUnchecked]
    by_cases h : outpoint ∈ pool.inputsOf hash
    · simp [h]
    · have hne : ∀ removed, outpoint ∈ pool.inputsOf removed → removed ≠ hash :=
        fun removed hm heq => h (heq ▸ hm)
      simp only [mem_inputsOf_removeUnchecked, h, if_false, List.mem_cons, exists_eq_or_imp,
        false_or]
      refine if_congr (exists_congr fun removed => and_congr_right fun _ => ?_) rfl rfl
      exact ⟨And.right, fun hm => ⟨hne removed hm, hm⟩⟩

theorem getElem?_removeStaged (pool : CTxMemPool) (stage : List UInt256) (k : UInt256) :
    (pool.removeStaged stage).mapTx[k]? = if k ∈ stage then none else pool.mapTx[k]? :=
  getElem?_foldl_removeUnchecked stage _

theorem mem_removeStaged : k ∈ (pool.removeStaged stage).mapTx ↔ k ∈ pool.mapTx ∧ k ∉ stage := by
  simp only [TreeMap.mem_iff_contains, TreeMap.contains_eq_isSome_getElem?, getElem?_removeStaged]
  by_cases h : k ∈ stage <;> simp [h]

theorem inputsOf_removeStaged (h : k ∉ stage) :
    (pool.removeStaged stage).inputsOf k = pool.inputsOf k := by
  rw [inputsOf, getElem?_removeStaged, if_neg h, inputsOf]

theorem mapNextTx_removeStaged : (pool.removeStaged stage).mapNextTx[outpoint]? =
      if ∃ removed ∈ stage, outpoint ∈ pool.inputsOf removed then none
      else pool.mapNextTx[outpoint]? :=
  mapNextTx_foldl_removeUnchecked stage (pool.updateForRemoveFromMempool stage)

theorem spendsFrom_removeStaged {child parent : UInt256} (h : child ∉ stage) :
    (pool.removeStaged stage).SpendsFrom child parent ↔ pool.SpendsFrom child parent := by
  rw [SpendsFrom, inputsOf_removeStaged h, SpendsFrom]

theorem mem_inputsOf_iff : outpoint ∈ pool.inputsOf hash ↔
    ∃ tx, pool.mapTx[hash]? = some tx ∧ ∃ txin ∈ tx.vin, txin.prevout = outpoint := by
  cases hg : pool.mapTx[hash]? <;> simp [inputsOf, hg]

theorem Linked.exists_nextTx (h : pool.Linked) (ho : outpoint ∈ pool.inputsOf hash) :
    ∃ tx, pool.mapNextTx[outpoint]? = some tx ∧ tx.hash = hash := by
  obtain ⟨tx, hg, -⟩ := mem_inputsOf_iff.1 ho
  obtain rfl := h.hashes hash tx hg
  exact ⟨tx, (h.nextTx outpoint tx).2 ⟨hg, ho⟩, rfl⟩

/-- No two entries spend the same outpoint. -/
theorem Linked.eq_of_inputsOf (h : pool.Linked) {other : UInt256}
    (hm : outpoint ∈ pool.inputsOf hash) (ho : outpoint ∈ pool.inputsOf other) :
    hash = other := by
  obtain ⟨tx, htx, rfl⟩ := h.exists_nextTx hm
  obtain ⟨tx', ht', rfl⟩ := h.exists_nextTx ho
  rw [htx] at ht'
  rw [Option.some.inj ht']

theorem mem_of_mem_inputsOf (h : outpoint ∈ pool.inputsOf hash) : hash ∈ pool.mapTx := by
  obtain ⟨tx, hg, -⟩ := mem_inputsOf_iff.1 h
  exact mem_of_getElem? hg

/-- The links of an entry that stays. -/
theorem linksOf_removeStaged (h : pool.Linked) (hk : k ∈ pool.mapTx) (hst : k ∉ stage) :
    (∀ child, child ∈ ((pool.removeStaged stage).linksOf k).children ↔
      child ∈ (pool.linksOf k).children ∧ child ∉ stage) ∧
    ∀ parent, parent ∈ ((pool.removeStaged stage).linksOf k).parents ↔
      parent ∈ (pool.linksOf k).parents ∧ parent ∉ stage := by
  -- what is a child in the links of one entry is a parent in those of the other
  have hm : ∀ {child parent}, child ∈ pool.mapTx → parent ∈ pool.mapTx →
      (child ∈ (pool.linksOf parent).children ↔ parent ∈ (pool.linksOf child).parents) := by
    intro child parent hch hpa
    rw [h.children parent hpa, h.parents child hch]
    tauto
  have hfirst := foldl_severChildren (fun removed => (pool.linksOf removed).parents) stage pool.mapLinks
  rw [removeStaged, linksOf_foldl_removeUnchecked _ hst, linksOf, updateForRemoveFromMempool]
  generalize stage.foldl (fun links removed => (pool.linksOf removed).parents.toList.foldl
    (fun links entry => updateChild links entry (·.erase removed)) links) pool.mapLinks = severed
    at hfirst ⊢
  obtain ⟨hc, hp⟩ := foldl_severParents stage severed k
  constructor
  · intro child
    rw [hc, (hfirst k).2]
    refine and_congr_right fun hme => not_congr ⟨And.left, fun hin => ⟨hin, ?_⟩⟩
    exact (hm ((h.children k hk child).1 hme).1 hk).1 hme
  · intro parent
    rw [hp, (hfirst k).1, (hfirst parent).2]
    refine and_congr_right fun hme => not_congr ⟨And.left, fun hin => ⟨hin, ?_, fun hno => ?_⟩⟩
    · exact (hm hk ((h.parents k hk parent).1 hme).1).2 hme
    · exact hst hno.1

/-- A removal of any set of entries leaves the links of the others right. -/
theorem Linked.removeStaged (h : pool.Linked) (stage : List UInt256) :
    (pool.removeStaged stage).Linked where
  hashes k tx hk := by
    rw [getElem?_removeStaged] at hk
    split at hk
    · cases hk
    · exact h.hashes k tx hk
  nextTx o tx := by
    rw [mapNextTx_removeStaged, getElem?_removeStaged]
    by_cases hst : tx.hash ∈ stage
    · rw [if_pos hst]
      refine ⟨fun hnext => ?_, fun hno => by cases hno.1⟩
      split at hnext
      · cases hnext
      next hf => exact (hf ⟨tx.hash, hst, ((h.nextTx o tx).1 hnext).2⟩).elim
    · rw [if_neg hst, inputsOf_removeStaged hst, ← h.nextTx o tx]
      refine ⟨fun hnext => ?_, fun hnext => ?_⟩
      · split at hnext
        · cases hnext
        · exact hnext
      · rw [if_neg, hnext]
        rintro ⟨removed, hr, hm⟩
        exact hst (h.eq_of_inputsOf ((h.nextTx o tx).1 hnext).2 hm ▸ hr)
  parents k hk parent := by
    obtain ⟨hk, hst⟩ := mem_removeStaged.1 hk
    rw [(linksOf_removeStaged h hk hst).2, h.parents k hk, mem_removeStaged,
      spendsFrom_removeStaged hst]
    tauto
  children k hk child := by
    obtain ⟨hk, hst⟩ := mem_removeStaged.1 hk
    rw [(linksOf_removeStaged h hk hst).1, h.children k hk, mem_removeStaged]
    refine ⟨fun ⟨⟨hm, hspends⟩, hc⟩ =>
      ⟨⟨hm, hc⟩, (spendsFrom_removeStaged hc).2 hspends⟩,
      fun ⟨⟨hm, hc⟩, hspends⟩ => ⟨⟨hm, (spendsFrom_removeStaged hc).1 hspends⟩, hc⟩⟩

end Removal

section Descendants

variable {pool : CTxMemPool} {a b : UInt256}

/-- An entry spends from another one, directly or through others in the pool. -/
def Descends (pool : CTxMemPool) : UInt256 → UInt256 → Prop :=
  ReflTransGen fun parent child => pool.SpendsFrom child parent

theorem mem_of_spendsFrom (h : pool.SpendsFrom b a) : b ∈ pool.mapTx := by
  obtain ⟨_, hm, -⟩ := h
  exact mem_of_mem_inputsOf hm

theorem Linked.mem_children_iff (h : pool.Linked) (ha : a ∈ pool.mapTx) :
    b ∈ (pool.linksOf a).children ↔ pool.SpendsFrom b a := by
  rw [h.children a ha]
  exact ⟨And.right, fun hspends => ⟨mem_of_spendsFrom hspends, hspends⟩⟩

/-- From an entry of the pool, following the links is following the transactions. -/
theorem Linked.reach_iff_descends (h : pool.Linked) (ha : a ∈ pool.mapTx) :
    ReflTransGen (fun p c => c ∈ (pool.linksOf p).children) a b ↔ pool.Descends a b := by
  constructor
  · intro hab
    suffices hb : b ∈ pool.mapTx ∧ pool.Descends a b from hb.2
    induction hab with
    | refl => exact ⟨ha, .refl⟩
    | tail _ hstep ih =>
      have hspends := (h.mem_children_iff ih.1).1 hstep
      exact ⟨mem_of_spendsFrom hspends, ih.2.tail hspends⟩
  · intro hab
    suffices hb : b ∈ pool.mapTx ∧ ReflTransGen (fun p c => c ∈ (pool.linksOf p).children) a b from
      hb.2
    induction hab with
    | refl => exact ⟨ha, .refl⟩
    | tail _ hspends ih =>
      exact ⟨mem_of_spendsFrom hspends, ih.2.tail ((h.mem_children_iff ih.1).2 hspends)⟩

theorem mem_of_descends (ha : a ∈ pool.mapTx) (h : pool.Descends a b) : b ∈ pool.mapTx := by
  cases h with
  | refl => exact ha
  | tail _ hspends => exact mem_of_spendsFrom hspends

/-- The walk finds the descendants of an entry, given a set that is complete already. -/
theorem Linked.mem_calculateDescendants (h : pool.Linked) {seen : TreeSet UInt256}
    (ha : a ∈ pool.mapTx) (hse : ∀ p ∈ seen, p ∈ pool.mapTx)
    (hcl : ∀ p ∈ seen, ∀ c, pool.SpendsFrom c p → c ∈ seen) :
    b ∈ pool.calculateDescendants a seen ↔ b ∈ seen ∨ pool.Descends a b := by
  have hl : ∀ p ∈ seen, ∀ c ∈ (pool.linksOf p).children, c ∈ seen :=
    fun p hp c hc => hcl p hp c ((h.mem_children_iff (hse p hp)).1 hc)
  have hsi : (pool.mapTx.keys.toFinset.filter (· ∉ seen)).card ≤ pool.mapTx.size :=
    calc (pool.mapTx.keys.toFinset.filter (· ∉ seen)).card
      _ ≤ pool.mapTx.keys.toFinset.card := Finset.card_filter_le _ _
      _ ≤ pool.mapTx.keys.length := List.toFinset_card_le _
      _ = pool.mapTx.size := TreeMap.length_keys
  unfold calculateDescendants
  by_cases hin : a ∈ seen
  · -- everything below the entry has been found before
    have hd : pool.Descends a b → b ∈ seen := by
      intro hab
      induction hab with
      | refl => exact hin
      | tail _ hspends ih => exact hcl _ ih _ hspends
    rw [if_pos (TreeSet.contains_iff_mem.2 hin), Walk.mem_walk pool.mapTx.keys.toFinset (by simp)
      (fun p hp c hc => Or.inl (hl p hp c hc)) (by simp) hsi]
    tauto
  · have hst : ∀ p, p ∈ (∅ : TreeSet UInt256).insert a ↔ p = a := by
      intro p
      rw [mem_set_insert]
      simp
    rw [if_neg (mt TreeSet.contains_iff_mem.1 hin), Walk.mem_walk pool.mapTx.keys.toFinset ?_
      (fun p hp c hc => Or.inl (hl p hp c hc)) ?_ hsi]
    · simp only [hst, exists_eq_left, h.reach_iff_descends ha]
    · intro p hp
      rwa [(hst p).1 hp]
    · intro p hp c hpc
      obtain rfl := (hst p).1 hp
      rw [List.mem_toFinset, TreeMap.mem_keys]
      exact mem_of_descends ha ((h.reach_iff_descends ha).1 hpc)

theorem Linked.mem_withDescendants (h : pool.Linked) {entries : List UInt256}
    (hen : ∀ e ∈ entries, e ∈ pool.mapTx) :
    b ∈ pool.withDescendants entries ↔ ∃ e ∈ entries, pool.Descends e b := by
  suffices hf : ∀ (entries : List UInt256) (seen : TreeSet UInt256),
      (∀ e ∈ entries, e ∈ pool.mapTx) → (∀ p ∈ seen, p ∈ pool.mapTx) →
      (∀ p ∈ seen, ∀ c, pool.SpendsFrom c p → c ∈ seen) →
      (b ∈ entries.foldl (fun set entry => pool.calculateDescendants entry set) seen ↔
        b ∈ seen ∨ ∃ e ∈ entries, pool.Descends e b) by
    rw [withDescendants, TreeSet.mem_toList, hf entries ∅ hen (by simp) (by simp)]
    simp
  intro entries
  induction entries with
  | nil => simp
  | cons e entries ih =>
    intro seen hen hse hcl
    have he : e ∈ pool.mapTx := hen e List.mem_cons_self
    have hm : ∀ x, x ∈ pool.calculateDescendants e seen ↔ x ∈ seen ∨ pool.Descends e x :=
      fun x => h.mem_calculateDescendants he hse hcl
    rw [List.foldl_cons, ih (pool.calculateDescendants e seen)
      (fun e' he' => hen e' (List.mem_cons_of_mem _ he')), hm]
    · simp only [List.mem_cons, exists_eq_or_imp, or_assoc]
    · intro p hp
      rcases (hm p).1 hp with hp | hp
      · exact hse p hp
      · exact mem_of_descends he hp
    · intro p hp c hc
      rcases (hm p).1 hp with hp | hp
      · exact (hm c).2 (Or.inl (hcl p hp c hc))
      · exact (hm c).2 (Or.inr (hp.tail hc))

end Descendants

section Addition

variable {pool : CTxMemPool} {tx : CTransaction} {k : UInt256} {outpoint : COutPoint}

theorem linked_empty : Linked {} where
  hashes := by simp
  nextTx := by simp
  parents := by simp
  children := by simp

/-- A transaction that is new to the pool: its inputs are spent neither by the pool nor by itself,
and nobody in the pool spends from it. -/
structure Addable (pool : CTxMemPool) (tx : CTransaction) : Prop where
  new : tx.hash ∉ pool.mapTx
  unlinked : tx.hash ∉ pool.mapLinks
  unspent : ∀ txin ∈ tx.vin, ∀ hash, txin.prevout ∉ pool.inputsOf hash
  notOwn : ∀ txin ∈ tx.vin, txin.prevout.hash ≠ tx.hash
  childless : ∀ hash, ¬ pool.SpendsFrom hash tx.hash

theorem getElem?_addUnchecked (hnew : tx.hash ∉ pool.mapTx) :
    (pool.addUnchecked tx).mapTx[k]? = if k = tx.hash then some tx else pool.mapTx[k]? := by
  have hn : pool.mapTx[tx.hash]? = none := TreeMap.getElem?_eq_none hnew
  rw [addUnchecked]
  by_cases hk : k = tx.hash
  · rw [if_pos hk, hk, DirtyPair.getElem?_insertIfNew_self, hn]
    rfl
  · rw [if_neg hk, DirtyPair.getElem?_insertIfNew_ne (Ne.symm hk)]

theorem inputsOf_addUnchecked (hnew : tx.hash ∉ pool.mapTx) : (pool.addUnchecked tx).inputsOf k =
      if k = tx.hash then tx.vin.map CTxIn.prevout else pool.inputsOf k := by
  rw [inputsOf, getElem?_addUnchecked hnew]
  by_cases hk : k = tx.hash <;> simp [hk, inputsOf]

theorem mem_addUnchecked (hnew : tx.hash ∉ pool.mapTx) :
    k ∈ (pool.addUnchecked tx).mapTx ↔ k = tx.hash ∨ k ∈ pool.mapTx := by
  simp only [TreeMap.mem_iff_isSome_getElem?, getElem?_addUnchecked hnew]
  by_cases hk : k = tx.hash <;> simp [hk]

theorem getElem?_foldl_insertIfNew {α : Type} (keys : List COutPoint) (v : α)
    (m : TreeMap COutPoint α) :
    (keys.foldl (fun m key => m.insertIfNew key v) m)[outpoint]? =
      (m[outpoint]? <|> if outpoint ∈ keys then some v else none) := by
  induction keys generalizing m with
  | nil => simp
  | cons key keys ih =>
    rw [List.foldl_cons, ih]
    by_cases h : outpoint = key
    · subst h
      rw [DirtyPair.getElem?_insertIfNew_self]
      cases m[outpoint]? <;> simp
    · rw [DirtyPair.getElem?_insertIfNew_ne (Ne.symm h)]
      simp [h]

theorem getD_foldl_insertParent (parents : List UInt256) (entry : UInt256)
    (links : TreeMap UInt256 TxLinks) :
    let after := (parents.foldl (fun links parent => updateParent links entry (·.insert parent))
      links).getD k {}
    after.children = (links.getD k {}).children ∧ ∀ parent, parent ∈ after.parents ↔
      parent ∈ (links.getD k {}).parents ∨ k = entry ∧ parent ∈ parents := by
  induction parents generalizing links with
  | nil => simp
  | cons p parents ih =>
    obtain ⟨hc, hp⟩ := ih (updateParent links entry (·.insert p))
    rw [updateParent, getD_updateLinks] at hc hp
    by_cases hk : k = entry
    · simp only [if_pos hk, mem_set_insert] at hc hp
      refine ⟨hc, fun parent => (hp parent).trans ?_⟩
      rw [List.mem_cons]
      tauto
    · simp only [if_neg hk] at hc hp
      refine ⟨hc, fun parent => (hp parent).trans ?_⟩
      simp [hk]

/-- A transaction that is new to the pool and does not spend from itself. -/
structure Joins (pool : CTxMemPool) (tx : CTransaction) : Prop where
  new : tx.hash ∉ pool.mapTx
  unlinked : tx.hash ∉ pool.mapLinks
  notOwn : ∀ txin ∈ tx.vin, txin.prevout.hash ≠ tx.hash

theorem Addable.joins (h : pool.Addable tx) : pool.Joins tx := ⟨h.new, h.unlinked, h.notOwn⟩

theorem Joins.mem_parentsOf (h : pool.Joins tx) {parent : UInt256} :
    parent ∈ (pool.addUnchecked tx).parentsOf tx ↔
      parent ∈ pool.mapTx ∧ parent ∈ tx.vin.map fun txin => txin.prevout.hash := by
  rw [parentsOf, List.mem_dedup, List.mem_filter, TreeMap.contains_iff_mem, mem_addUnchecked h.new,
    and_comm]
  refine and_congr_left fun hm => ⟨fun hor => hor.resolve_left ?_, Or.inr⟩
  rintro rfl
  obtain ⟨txin, ht, heq⟩ := List.mem_map.1 hm
  exact h.notOwn txin ht heq

/-- The links of the entries after an addition. -/
theorem linksOf_addUnchecked (h : pool.Joins tx) :
    (∀ parent, parent ∈ ((pool.addUnchecked tx).linksOf k).parents ↔
      parent ∈ (pool.linksOf k).parents ∨
        k = tx.hash ∧ parent ∈ pool.mapTx ∧ parent ∈ tx.vin.map fun txin => txin.prevout.hash) ∧
    ∀ child, child ∈ ((pool.addUnchecked tx).linksOf k).children ↔
      child ∈ (pool.linksOf k).children ∨
        child = tx.hash ∧ k ∈ pool.mapTx ∧ k ∈ tx.vin.map fun txin => txin.prevout.hash := by
  have hl : (pool.addUnchecked tx).linksOf k = (((pool.addUnchecked tx).parentsOf tx).foldl
        (fun links parent => updateChild links parent (·.insert tx.hash))
        (((pool.addUnchecked tx).parentsOf tx).foldl
          (fun links parent => updateParent links tx.hash (·.insert parent))
          (pool.mapLinks.insertIfNew tx.hash {}))).getD k {} := rfl
  have hst : (pool.mapLinks.insertIfNew tx.hash {}).getD k {} = pool.linksOf k := by
    rw [linksOf, TreeMap.getD_insertIfNew]
    split
    next heq => rw [← LawfulEqOrd.eq_of_compare heq.1, TreeMap.getD_eq_fallback h.unlinked]
    · rfl
  obtain ⟨hc, hp⟩ := @getD_foldl_insertParent k ((pool.addUnchecked tx).parentsOf tx)
    tx.hash (pool.mapLinks.insertIfNew tx.hash {})
  simp only [updateChild] at hl
  have hn : ((pool.addUnchecked tx).parentsOf tx).Nodup := List.nodup_dedup _
  rw [getD_updateEach hn] at hl
  simp only [hst, h.mem_parentsOf] at hc hp hl
  rw [hl]
  constructor
  · intro parent
    refine Iff.trans ?_ (hp parent)
    split <;> exact Iff.rfl
  · intro child
    rw [← hc]
    split
    next hk =>
      simp only [mem_set_insert, hk, and_true]
      exact or_comm
    next hk => exact ⟨Or.inl, fun hor => hor.resolve_right fun hnew => hk hnew.2⟩

theorem spendsFrom_addUnchecked (hnew : tx.hash ∉ pool.mapTx) {child parent : UInt256} :
    (pool.addUnchecked tx).SpendsFrom child parent ↔
      (child = tx.hash ∧ parent ∈ tx.vin.map fun txin => txin.prevout.hash) ∨
        pool.SpendsFrom child parent := by
  simp only [SpendsFrom, inputsOf_addUnchecked hnew]
  by_cases hc : child = tx.hash
  · have hn : pool.inputsOf tx.hash = [] := by
      simp [inputsOf, TreeMap.getElem?_eq_none hnew]
    simp [hc, hn]
  · simp [hc]

/-- Entries are linked, but for the spends that the links leave out. -/
structure LinkedUpTo (pool : CTxMemPool) (hidden : UInt256 → UInt256 → Prop) : Prop where
  hashes : ∀ (hash : UInt256) (tx : CTransaction), pool.mapTx[hash]? = some tx → tx.hash = hash
  nextTx : ∀ (outpoint : COutPoint) (tx : CTransaction), pool.mapNextTx[outpoint]? = some tx ↔
    pool.mapTx[tx.hash]? = some tx ∧ outpoint ∈ pool.inputsOf tx.hash
  parents : ∀ hash ∈ pool.mapTx, ∀ parent, parent ∈ (pool.linksOf hash).parents ↔
    parent ∈ pool.mapTx ∧ pool.SpendsFrom hash parent ∧ ¬hidden parent hash
  children : ∀ hash ∈ pool.mapTx, ∀ child, child ∈ (pool.linksOf hash).children ↔
    child ∈ pool.mapTx ∧ pool.SpendsFrom child hash ∧ ¬hidden hash child

theorem linkedUpTo_iff_linked {hidden : UInt256 → UInt256 → Prop} (h : ∀ p c, ¬hidden p c) :
    pool.LinkedUpTo hidden ↔ pool.Linked := by
  constructor
  · rintro ⟨hh, hnext, hp, hc⟩
    exact ⟨hh, hnext, fun k hk p => (hp k hk p).trans (by simp [h]),
      fun k hk c => (hc k hk c).trans (by simp [h])⟩
  · rintro ⟨hh, hnext, hp, hc⟩
    exact ⟨hh, hnext, fun k hk p => (hp k hk p).trans (by simp [h]),
      fun k hk c => (hc k hk c).trans (by simp [h])⟩

/-- An addition links the new transaction to its parents; those that spend from it stay out. -/
theorem LinkedUpTo.addUnchecked {hidden : UInt256 → UInt256 → Prop} (h : pool.LinkedUpTo hidden)
    (hj : pool.Joins tx) (hu : ∀ txin ∈ tx.vin, ∀ hash, txin.prevout ∉ pool.inputsOf hash)
    (hch : ∀ child, pool.SpendsFrom child tx.hash → hidden tx.hash child)
    (hse : ∀ parent, ¬hidden parent tx.hash) : (pool.addUnchecked tx).LinkedUpTo hidden := by
  have hn : pool.mapTx[tx.hash]? = none := TreeMap.getElem?_eq_none hj.new
  have he : pool.linksOf tx.hash = {} := TreeMap.getD_eq_fallback hj.unlinked
  have how : tx.hash ∉ tx.vin.map fun txin => txin.prevout.hash := by
    intro hm
    obtain ⟨txin, htx, heq⟩ := List.mem_map.1 hm
    exact hj.notOwn txin htx heq
  have hsp : ∀ {child parent}, pool.SpendsFrom child parent → child ∈ pool.mapTx :=
    fun hspends => mem_of_spendsFrom hspends
  constructor
  case hashes =>
    intro k t hk
    rw [getElem?_addUnchecked hj.new] at hk
    split at hk
    next heq =>
      cases hk
      exact heq.symm
    · exact h.hashes k t hk
  case nextTx =>
    intro o t
    have hnext : (pool.addUnchecked tx).mapNextTx[o]? = (pool.mapNextTx[o]? <|>
        if o ∈ tx.vin.map CTxIn.prevout then some tx else none) := by
      rw [← getElem?_foldl_insertIfNew, List.foldl_map]
      rfl
    rw [hnext, getElem?_addUnchecked hj.new, inputsOf_addUnchecked hj.new]
    by_cases ho : o ∈ tx.vin.map CTxIn.prevout
    · -- Nothing spent the outpoint so far.
      obtain ⟨txin, htx, rfl⟩ := List.mem_map.1 ho
      have hf : pool.mapNextTx[txin.prevout]? = none := by
        rw [Option.eq_none_iff_forall_ne_some]
        intro t' ht'
        exact hu txin htx _ ((h.nextTx _ _).1 ht').2
      by_cases ht : t.hash = tx.hash
      · simp [hf, ho, ht]
      · simp [hf, ho, ht, hu txin htx]
        rintro rfl
        exact ht rfl
    · by_cases ht : t.hash = tx.hash
      · simp [ho, ht, h.nextTx, hn]
      · simp [ho, ht, h.nextTx]
  case parents =>
    intro k hk parent
    rw [(linksOf_addUnchecked hj).1, spendsFrom_addUnchecked hj.new, mem_addUnchecked hj.new]
    rcases (mem_addUnchecked hj.new).1 hk with rfl | hol
    · have hno : ¬ pool.SpendsFrom tx.hash parent := fun hspends => hj.new (hsp hspends)
      grind [TreeSet.not_mem_emptyc]
    · have hk' : k ≠ tx.hash := fun heq => hj.new (heq ▸ hol)
      rw [h.parents k hol]
      grind
  case children =>
    intro k hk child
    rw [(linksOf_addUnchecked hj).2, spendsFrom_addUnchecked hj.new, mem_addUnchecked hj.new]
    rcases (mem_addUnchecked hj.new).1 hk with rfl | hol
    · have hc := hch child
      grind [TreeSet.not_mem_emptyc]
    · have hm : pool.SpendsFrom child k → child ∈ pool.mapTx := hsp
      rw [h.children k hol]
      grind

/-- An addition keeps the links right. -/
theorem Linked.addUnchecked (h : pool.Linked) (ha : pool.Addable tx) :
    (pool.addUnchecked tx).Linked :=
  (linkedUpTo_iff_linked fun _ _ => id).1 (((linkedUpTo_iff_linked fun _ _ => id).2 h).addUnchecked
    ha.joins ha.unspent ha.childless fun _ => id)

end Addition

end CTxMemPool

end Cmusic
