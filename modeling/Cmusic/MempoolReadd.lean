import Cmusic.MempoolExact

/-! The statistics of the pool are exact after every complete operation, also when a disconnected block
comes back. -/
namespace Cmusic

open Std Relation CTxMemPool Maps

namespace CTxMemPool

variable {pool : CTxMemPool} {tx : CTransaction} {links : TreeMap UInt256 TxLinks} {k : UInt256}
  {stage : List UInt256}

section Keys

theorem mem_updateLinks {entry : UInt256} {change : TxLinks → TxLinks} :
    k ∈ updateLinks links entry change ↔ k = entry ∨ k ∈ links := by
  rw [updateLinks, mem_insert_iff]

theorem mem_foldl_updateLinks {α : Type} (entry : α → UInt256) (change : α → TxLinks → TxLinks)
    (l : List α) :
    k ∈ l.foldl (fun links a => updateLinks links (entry a) (change a)) links ↔
      k ∈ links ∨ k ∈ l.map entry := by
  induction l generalizing links with
  | nil => simp
  | cons a l ih =>
    rw [List.foldl_cons, ih, mem_updateLinks, List.map_cons, List.mem_cons]
    tauto

theorem mem_mapLinks_addUnchecked (h : pool.Joins tx) (hp : ∀ p ∈ pool.mapTx, p ∈ pool.mapLinks) :
    k ∈ (pool.addUnchecked tx).mapLinks ↔ k = tx.hash ∨ k ∈ pool.mapLinks := by
  have hl : k ∈ (pool.addUnchecked tx).mapLinks ↔ (k ∈ pool.mapLinks.insertIfNew tx.hash {} ∨
        k ∈ ((pool.addUnchecked tx).parentsOf tx).map fun _ => tx.hash) ∨
          k ∈ ((pool.addUnchecked tx).parentsOf tx).map id :=
    (mem_foldl_updateLinks id _ _).trans (or_congr_left (mem_foldl_updateLinks (fun _ => tx.hash) _ _))
  rw [hl, TreeMap.mem_insertIfNew, LawfulEqOrd.compare_eq_iff_eq, eq_comm, List.map_id,
    h.mem_parentsOf, List.mem_map]
  constructor
  · rintro ((hk | ⟨_, _, hk⟩) | hk)
    · exact hk
    · exact Or.inl hk.symm
    · exact Or.inr (hp k hk.1)
  · exact fun hk => Or.inl (Or.inl hk)

theorem mem_updateEach {entries : TreeSet UInt256} {change : TxLinks → TxLinks}
    (h : ∀ entry ∈ entries, entry ∈ links) :
    k ∈ entries.toList.foldl (fun links entry => updateLinks links entry change) links ↔
      k ∈ links := by
  refine (mem_foldl_updateLinks id _ _).trans ⟨fun hor => hor.elim id fun hm => ?_, Or.inl⟩
  rw [List.map_id, TreeSet.mem_toList] at hm
  exact h k hm

theorem mem_foldl_severChildren {parentsOf : UInt256 → TreeSet UInt256}
    (h : ∀ removed ∈ stage, ∀ parent ∈ parentsOf removed, parent ∈ links) :
    k ∈ stage.foldl (fun links removed => (parentsOf removed).toList.foldl
      (fun links entry => updateChild links entry (·.erase removed)) links) links ↔ k ∈ links := by
  refine List.foldlRecOn stage _ (motive := fun after => ∀ k, k ∈ after ↔ k ∈ links)
    (fun _ => Iff.rfl) (fun after ih removed hr k => ?_) k
  exact (mem_updateEach fun p hp => (ih p).2 (h removed hr p hp)).trans (ih k)

theorem mem_foldl_severParents
    (h : ∀ removed ∈ stage, ∀ child ∈ (links.getD removed {}).children, child ∈ links) :
    k ∈ stage.foldl (fun links removed => (links.getD removed {}).children.toList.foldl
      (fun links entry => updateParent links entry (·.erase removed)) links) links ↔ k ∈ links := by
  -- the loop reads children, which it does not change
  refine (List.foldlRecOn stage _ (motive := fun after => (∀ k, k ∈ after ↔ k ∈ links) ∧
    ∀ x, (after.getD x {}).children = (links.getD x {}).children) ⟨fun _ => Iff.rfl, fun _ => rfl⟩
    fun after ih removed hr => ⟨fun k => ?_, fun x => ?_⟩).1 k
  · refine (mem_updateEach fun c hc => (ih.1 c).2 (h removed hr c ?_)).trans (ih.1 k)
    rwa [ih.2] at hc
  · exact (foldl_severParents [removed] after x).1.trans (ih.2 x)

theorem mem_mapLinks_foldl_removeUnchecked : k ∈ (stage.foldl removeUnchecked pool).mapLinks ↔
      k ∈ pool.mapLinks ∧ ¬(k ∈ stage ∧ k ∈ pool.mapTx) := by
  induction stage generalizing pool with
  | nil => simp
  | cons hash stage ih =>
    have hm : k ∈ (pool.removeUnchecked hash).mapTx ↔ k ≠ hash ∧ k ∈ pool.mapTx := by
      rw [TreeMap.mem_iff_isSome_getElem?, getElem?_removeUnchecked, TreeMap.mem_iff_isSome_getElem?]
      by_cases hk : k = hash <;> simp [hk]
    have hl : k ∈ (pool.removeUnchecked hash).mapLinks ↔
        k ∈ pool.mapLinks ∧ ¬(k = hash ∧ k ∈ pool.mapTx) := by
      cases htx : pool.mapTx[hash]? with
      | none =>
        have hout : hash ∉ pool.mapTx := by simp [TreeMap.mem_iff_isSome_getElem?, htx]
        rw [removeUnchecked_of_none htx]
        exact ⟨fun hk => ⟨hk, fun hno => hout (hno.1 ▸ hno.2)⟩, And.left⟩
      | some tx =>
        have hin : hash ∈ pool.mapTx := mem_of_getElem? htx
        rw [(removeUnchecked_of_some htx).2.1, mem_erase_iff]
        constructor
        · exact fun ⟨hne, hk⟩ => ⟨hk, fun hno => hne hno.1⟩
        · exact fun ⟨hk, hno⟩ => ⟨fun heq => hno ⟨heq, heq ▸ hin⟩, hk⟩
    rw [List.foldl_cons, ih, hl, hm, List.mem_cons]
    tauto

theorem Linked.mem_mapLinks_removeStaged (h : pool.Linked)
    (hke : ∀ hash, hash ∈ pool.mapLinks ↔ hash ∈ pool.mapTx) :
    k ∈ (pool.removeStaged stage).mapLinks ↔ k ∈ pool.mapTx ∧ k ∉ stage := by
  have hl : ∀ x, x ∉ pool.mapTx → pool.linksOf x = {} := fun x hx =>
    TreeMap.getD_eq_fallback (mt (hke x).1 hx)
  have hpa : ∀ x ∈ stage, ∀ p ∈ (pool.linksOf x).parents, p ∈ pool.mapLinks := by
    intro x _ p hp
    by_cases hx : x ∈ pool.mapTx
    · exact (hke p).2 ((h.parents x hx p).1 hp).1
    · simp [hl x hx] at hp
  have hch : ∀ x, ∀ c ∈ (pool.linksOf x).children, c ∈ pool.mapLinks := by
    intro x c hc
    by_cases hx : x ∈ pool.mapTx
    · exact (hke c).2 ((h.children x hx c).1 hc).1
    · simp [hl x hx] at hc
  have hse : k ∈ (pool.updateForRemoveFromMempool stage).mapLinks ↔ k ∈ pool.mapTx := by
    rw [← hke]
    refine (mem_foldl_severParents fun x _ c hc => ?_).trans (mem_foldl_severChildren hpa)
    rw [mem_foldl_severChildren hpa]
    exact hch x c ((foldl_severChildren _ stage pool.mapLinks x).2 c |>.1 hc).1
  have hm : (pool.updateForRemoveFromMempool stage).mapTx = pool.mapTx := rfl
  rw [CTxMemPool.removeStaged, mem_mapLinks_foldl_removeUnchecked, hse, hm]
  tauto

end Keys

section Paths

variable {a b : UInt256}

theorem Descends.of_removeStaged (h : (pool.removeStaged stage).Descends a b) : pool.Descends a b := by
  refine ReflTransGen.mono (fun p c hspends => ?_) _ _ h
  exact (spendsFrom_removeStaged (mem_removeStaged.1 (mem_of_spendsFrom hspends)).2).1 hspends

/-- A path does not leave a set that has the descendants of its members. -/
theorem Descends.removeStaged_of_closed (h : pool.Descends a b)
    (hcl : ∀ p ∈ stage, ∀ c, pool.SpendsFrom c p → c ∈ stage) (hb : b ∉ stage) :
    (pool.removeStaged stage).Descends a b := by
  induction h with
  | refl => exact .refl
  | tail _ hspends ih =>
    exact (ih fun hc => hb (hcl _ hc _ hspends)).tail ((spendsFrom_removeStaged hb).2 hspends)

/-- A path does not lead to an entry that spends from no other. -/
theorem Descends.removeStaged_of_first {x : UInt256} (h : pool.Descends a b) (ha : a ∈ pool.mapTx)
    (hx : ∀ p ∈ pool.mapTx, ¬pool.SpendsFrom x p) : (pool.removeStaged [x]).Descends a b := by
  induction h with
  | refl => exact .refl
  | @tail p c hap hspends ih =>
    have hc : c ∉ [x] := by
      rw [List.mem_singleton]
      rintro rfl
      exact hx p (mem_of_descends ha hap) hspends
    exact ih.tail ((spendsFrom_removeStaged hc).2 hspends)

end Paths

/-- A transaction that is new to the pool, whose inputs nobody in the pool spends and which does not
spend from itself. -/
structure Acceptable (pool : CTxMemPool) (tx : CTransaction) : Prop where
  new : tx.hash ∉ pool.mapTx
  unspent : ∀ txin ∈ tx.vin, ∀ hash, txin.prevout ∉ pool.inputsOf hash
  notOwn : ∀ txin ∈ tx.vin, txin.prevout.hash ≠ tx.hash

/-- The set of the ancestors that a new transaction has in the pool. -/
def AncestorsAre (pool : CTxMemPool) (tx : CTransaction) (setAncestors : TreeSet UInt256) : Prop :=
  ∀ hash, hash ∈ setAncestors ↔ hash ∈ pool.mapTx ∧ (pool.addUnchecked tx).Descends hash tx.hash

instance {child parent : UInt256} : Decidable (pool.SpendsFrom child parent) :=
  inferInstanceAs (Decidable (∃ outpoint ∈ pool.inputsOf child, outpoint.hash = parent))

-- The keys are gone through one by one: hashes in general are far too many to try.
instance : Decidable (pool.Acceptable tx) :=
  decidable_of_iff (tx.hash ∉ pool.mapTx ∧ (pool.mapTx.keys.all fun hash =>
      tx.vin.all fun txin => decide (txin.prevout ∉ pool.inputsOf hash)) = true ∧
      ∀ txin ∈ tx.vin, txin.prevout.hash ≠ tx.hash) <| by
    simp only [List.all_eq_true, decide_eq_true_eq, TreeMap.mem_keys]
    exact ⟨fun h => ⟨h.1, fun txin ht hash hm =>
      h.2.1 hash (mem_of_mem_inputsOf hm) txin ht hm, h.2.2⟩,
      fun h => ⟨h.new, fun hash _ txin ht => h.unspent txin ht hash, h.notOwn⟩⟩

/-- Only the entries can spend from a transaction. -/
theorem childless_of_keys {parent : UInt256}
    (h : (pool.mapTx.keys.all fun hash => decide ¬pool.SpendsFrom hash parent) = true)
    (child : UInt256) : ¬pool.SpendsFrom child parent := fun hspends =>
  of_decide_eq_true (List.all_eq_true.1 h child (TreeMap.mem_keys.2 (mem_of_spendsFrom hspends))) hspends

/-- Who spends from a new transaction did so before. -/
theorem Acceptable.spendsFrom_self (h : pool.Acceptable tx) :
    (pool.addUnchecked tx).SpendsFrom k tx.hash ↔ pool.SpendsFrom k tx.hash := by
  rw [spendsFrom_addUnchecked h.new]
  refine ⟨fun hor => hor.resolve_left fun hse => ?_, Or.inr⟩
  obtain ⟨txin, ht, heq⟩ := List.mem_map.1 hse.2
  exact h.notOwn txin ht heq

/-- A transaction that spends from no entry has no ancestors in the pool. -/
theorem Acceptable.ancestorsAre_empty (h : pool.Acceptable tx)
    (hfirst : ∀ txin ∈ tx.vin, txin.prevout.hash ∉ pool.mapTx) : pool.AncestorsAre tx ∅ := by
  refine fun hash => ⟨fun hm => absurd hm TreeSet.not_mem_emptyc, fun ⟨hm, hd⟩ => ?_⟩
  rcases ReflTransGen.cases_tail hd with heq | ⟨p, hp, hspends⟩
  · exact absurd (heq ▸ hm) h.new
  · have hpo := mem_of_descends ((mem_addUnchecked h.new).2 (Or.inr hm)) hp
    rcases (spendsFrom_addUnchecked h.new).1 hspends with ⟨-, hpa⟩ | ho
    · obtain ⟨txin, ht, rfl⟩ := List.mem_map.1 hpa
      rcases (mem_addUnchecked h.new).1 hpo with heq | ho
      · exact absurd heq (h.notOwn txin ht)
      · exact absurd ho (hfirst txin ht)
    · exact absurd (mem_of_spendsFrom ho) h.new

end CTxMemPool

namespace MeasuredPool

variable {s : MeasuredPool} {k : UInt256} {tx : CTransaction} {entry : CTxMemPoolEntry}
  {setAncestors : TreeSet UInt256}

theorem Kept.addUnchecked (h : s.Kept) (hj : s.pool.Joins tx) (hse : tx.hash ∉ setAncestors) :
    (s.addUnchecked tx entry setAncestors).Kept where
  entries hash := by
    have hnew : tx.hash ∉ s.entries := mt (h.entries _).1 hj.new
    have hm : hash ∈ (s.addUnchecked tx entry setAncestors).pool.mapTx ↔
        hash = tx.hash ∨ hash ∈ s.pool.mapTx := mem_addUnchecked hj.new
    rw [hm, ← h.entries, TreeMap.mem_iff_isSome_getElem?, getElem?_addUnchecked hnew hse,
      TreeMap.mem_iff_isSome_getElem?]
    split
    next heq => simp [heq]
    next hne => split <;> simp [hne]
  links hash := by
    refine (mem_mapLinks_addUnchecked hj fun p hp => (h.links p).2 hp).trans ?_
    rw [h.links]
    exact (mem_addUnchecked hj.new).symm

theorem Kept.removeStaged {stage : List UInt256} {updateDescendants : Bool} (h : s.Kept)
    (hl : s.pool.Linked) : (s.removeStaged stage updateDescendants).Kept where
  entries hash := by
    have hm : hash ∈ (s.removeStaged stage updateDescendants).pool.mapTx ↔
        hash ∈ s.pool.mapTx ∧ hash ∉ stage := mem_removeStaged
    rw [hm, ← h.entries, TreeMap.mem_iff_isSome_getElem?, getElem?_removeStaged,
      TreeMap.mem_iff_isSome_getElem?]
    by_cases hst : hash ∈ stage <;> simp [hst]
  links hash := (hl.mem_mapLinks_removeStaged h.links).trans mem_removeStaged.symm

/-- The links and the statistics say what the transactions of the pool say. -/
structure Sound (s : MeasuredPool) : Prop where
  linked : s.pool.Linked
  kept : s.Kept
  exact : s.ExactFor s.pool.Descends

theorem Kept.joins (h : s.Kept) (ha : s.pool.Acceptable tx) : s.pool.Joins tx :=
  ⟨ha.new, mt (h.links _).1 ha.new, ha.notOwn⟩

theorem Sound.addUnchecked (h : s.Sound) (hf : entry.Fresh) (ha : s.pool.Acceptable tx)
    (hc : ∀ child, ¬s.pool.SpendsFrom child tx.hash)
    (han : s.pool.AncestorsAre tx setAncestors) :
    (s.addUnchecked tx entry setAncestors).Sound := by
  have hj := h.kept.joins ha
  have hbe : ∀ b ∈ s.pool.mapTx, ¬(s.pool.addUnchecked tx).Descends tx.hash b := by
    intro b hb hd
    rcases ReflTransGen.cases_head hd with rfl | ⟨c, hspends, -⟩
    · exact ha.new hb
    · exact hc c (ha.spendsFrom_self.1 hspends)
  refine ⟨h.linked.addUnchecked ⟨ha.new, hj.unlinked, ha.unspent, ha.notOwn, hc⟩,
    h.kept.addUnchecked hj fun hm => ha.new ((han _).1 hm).1,
    h.exact.addUnchecked h.kept hf ha.new (fun a _ b hb => ?_) .refl hbe han⟩
  exact ⟨fun hd => descends_of_addUnchecked_end ha.new hd (hbe b hb),
    fun hd => hd.addUnchecked ha.new⟩

section Removals

variable {stage : List UInt256}

theorem Sound.removeStaged_closed (h : s.Sound) (hn : stage.Nodup)
    (hst : ∀ x ∈ stage, x ∈ s.pool.mapTx)
    (hc : ∀ p ∈ stage, ∀ c, s.pool.SpendsFrom c p → c ∈ stage) :
    (s.removeStaged stage false).Sound := by
  refine ⟨h.linked.removeStaged stage, h.kept.removeStaged h.linked,
    h.exact.removeStaged h.kept hn hst ?_ ?_ ?_⟩
  · exact fun a _ _ b _ hb => ⟨fun hd => hd.of_removeStaged,
      fun hd => hd.removeStaged_of_closed hc hb⟩
  · intro x hx a ha hout
    have hne : a ≠ x := fun heq => hout (heq ▸ hx)
    rw [h.linked.mem_memPoolAncestors_of_ne (hst x hx) hne]
    exact and_iff_right ha
  · intro x hx b hb hout
    refine ⟨fun hm => absurd hm List.not_mem_nil, fun hd => absurd ?_ hout⟩
    clear hb hout
    induction hd with
    | refl => exact hx
    | tail _ hspends ih => exact hc _ ih _ hspends

/-- An entry without ancestors leaves the pool and its descendants stay. -/
theorem Sound.removeStaged_first (h : s.Sound) {x : UInt256} (hx : x ∈ s.pool.mapTx)
    (hfirst : ∀ p ∈ s.pool.mapTx, ¬s.pool.SpendsFrom x p) : (s.removeStaged [x] true).Sound := by
  refine ⟨h.linked.removeStaged [x], h.kept.removeStaged h.linked,
    h.exact.removeStaged h.kept (List.nodup_singleton x) (by simpa using hx) ?_ ?_ ?_⟩
  · exact fun a ha _ b _ _ => ⟨fun hd => hd.of_removeStaged,
      fun hd => hd.removeStaged_of_first ha hfirst⟩
  · intro y hy a ha hout
    obtain rfl := List.mem_singleton.1 hy
    have hne : a ≠ y := fun heq => hout (heq ▸ hy)
    rw [h.linked.mem_memPoolAncestors_of_ne hx hne]
    exact and_iff_right ha
  · intro y hy b _ hb
    obtain rfl := List.mem_singleton.1 hy
    have hne : y ≠ b := fun heq => hb (heq ▸ hy)
    rw [losingAncestor, if_pos rfl, TreeSet.mem_toList, mem_set_erase,
      h.linked.mem_calculateDescendants hx (by simp) (by simp)]
    simp [hne.symm]

theorem Sound.removeRecursive (h : s.Sound) (origTx : CTransaction) : (s.removeRecursive origTx).Sound := by
  unfold MeasuredPool.removeRecursive
  -- what is looked for is in the pool, or spends from the transaction in the pool
  have hen : ∀ e ∈ (if s.pool.mapTx.contains origTx.hash then [origTx.hash]
      else origTx.outpoints.filterMap fun output =>
        s.pool.mapNextTx[output.1]?.map CTransaction.hash), e ∈ s.pool.mapTx := by
    intro e he
    split at he
    next hin =>
      rw [List.mem_singleton.1 he]
      exact TreeMap.contains_iff_mem.1 hin
    · obtain ⟨output, -, hnext⟩ := List.mem_filterMap.1 he
      obtain ⟨tx, htx, rfl⟩ := Option.map_eq_some_iff.1 hnext
      exact mem_of_getElem? ((h.linked.nextTx _ _).1 htx).1
  refine h.removeStaged_closed (nodup_toList _) (fun x hx => ?_) fun p hp c hspends => ?_
  · obtain ⟨e, he, hd⟩ := (h.linked.mem_withDescendants hen).1 hx
    exact mem_of_descends (hen e he) hd
  · obtain ⟨e, he, hd⟩ := (h.linked.mem_withDescendants hen).1 hp
    exact (h.linked.mem_withDescendants hen).2 ⟨e, he, hd.tail hspends⟩

end Removals

section Block

variable {B Q : List UInt256} {pool : CTxMemPool} {a b child : UInt256} {block : List PoolAddition}

/-- The transactions of a block as they come back one after the other: each of them spends from no
entry but those of the block, and none of those that are back already spends from it. -/
def InOrder (B : List UInt256) : CTxMemPool → List PoolAddition → Prop
  | _, [] => True
  | pool, x :: block => pool.Acceptable x.tx ∧ pool.AncestorsAre x.tx x.setAncestors ∧
    (∀ txin ∈ x.tx.vin, txin.prevout.hash ∈ pool.mapTx → txin.prevout.hash ∈ B) ∧
    (∀ child ∈ B, ¬pool.SpendsFrom child x.tx.hash) ∧ InOrder B (pool.addUnchecked x.tx) block

/-- The pool while some transactions of a block are back. The links and the figures leave out what the
other entries spend from the block. -/
structure Returning (B Q : List UInt256) (s : MeasuredPool) : Prop where
  linked : s.pool.LinkedUpTo fun p c => p ∈ B ∧ c ∉ B
  kept : s.Kept
  exact : s.ExactFor fun a b => s.pool.Descends a b ∧ (a ∈ B → b ∈ B)
  inner : ∀ c ∈ B, ∀ p ∈ s.pool.mapTx, s.pool.SpendsFrom c p → p ∈ B
  present : ∀ x ∈ Q, x ∈ s.pool.mapTx
  nodup : Q.Nodup
  ordered : Q.Pairwise fun x y => ¬s.pool.SpendsFrom x y

theorem ExactFor.congr {R R' : UInt256 → UInt256 → Prop} (h : s.ExactFor R) (hke : s.Kept)
    (hR : ∀ a ∈ s.pool.mapTx, ∀ b ∈ s.pool.mapTx, R a b ↔ R' a b) : s.ExactFor R' where
  descendants k e he :=
    (h.descendants k e he).trans (total_congr (hR k (hke.mem_of_getElem? he)))
  ancestors k e he :=
    (h.ancestors k e he).trans (total_congr fun a ha => hR a ha k (hke.mem_of_getElem? he))

/-- What descends from an entry outside the block is outside the block. -/
theorem not_mem_of_descends (hi : ∀ c ∈ B, ∀ p ∈ pool.mapTx, pool.SpendsFrom c p → p ∈ B)
    (ha : a ∈ pool.mapTx) (hout : a ∉ B) (h : pool.Descends a b) : b ∉ B := by
  induction h with
  | refl => exact hout
  | @tail p c hap hspends ih =>
    exact fun hc => ih (hi c hc p (mem_of_descends ha hap) hspends)

theorem Sound.returning (h : s.Sound) (hnew : ∀ x ∈ B, x ∉ s.pool.mapTx) : s.Returning B [] where
  linked := by
    refine ⟨h.linked.hashes, h.linked.nextTx, fun k hk p => ?_, fun k hk c => ?_⟩
    · rw [h.linked.parents k hk]
      exact and_congr_right fun hp => ⟨fun hspends => ⟨hspends, fun hno => hnew p hno.1 hp⟩, And.left⟩
    · rw [h.linked.children k hk]
      exact and_congr_right fun _ => ⟨fun hspends => ⟨hspends, fun hno => hnew k hno.1 hk⟩, And.left⟩
  kept := h.kept
  exact := h.exact.congr h.kept fun a ha b _ =>
    ⟨fun hd => ⟨hd, fun hno => absurd ha (hnew a hno)⟩, And.left⟩
  inner c hc p _ hspends := absurd (mem_of_spendsFrom hspends) (hnew c hc)
  present := by simp
  nodup := List.nodup_nil
  ordered := List.Pairwise.nil

theorem Returning.addUnchecked (h : s.Returning B Q) {tx : CTransaction} {entry : CTxMemPoolEntry}
    {setAncestors : TreeSet UInt256} (hf : entry.Fresh) (hB : tx.hash ∈ B) (hQ : ∀ x ∈ Q, x ∈ B)
    (had : s.pool.Acceptable tx) (han : s.pool.AncestorsAre tx setAncestors)
    (hpa : ∀ txin ∈ tx.vin, txin.prevout.hash ∈ s.pool.mapTx → txin.prevout.hash ∈ B)
    (hl : ∀ child ∈ B, ¬s.pool.SpendsFrom child tx.hash) :
    (s.addUnchecked tx entry setAncestors).Returning B (Q ++ [tx.hash]) := by
  have hj := h.kept.joins had
  have hm : ∀ k, k ∈ (s.pool.addUnchecked tx).mapTx ↔ k = tx.hash ∨ k ∈ s.pool.mapTx :=
    fun k => mem_addUnchecked had.new
  have hch : ∀ child, s.pool.SpendsFrom child tx.hash → child ∉ B := fun child hspends hme =>
    hl child hme hspends
  have hi : ∀ c ∈ B, ∀ p ∈ (s.pool.addUnchecked tx).mapTx,
      (s.pool.addUnchecked tx).SpendsFrom c p → p ∈ B := by
    intro c hc p hp hspends
    rcases (hm p).1 hp with rfl | hp
    · exact hB
    · rcases (spendsFrom_addUnchecked had.new).1 hspends with ⟨-, hme⟩ | hspends
      · obtain ⟨txin, ht, rfl⟩ := List.mem_map.1 hme
        exact hpa txin ht hp
      · exact h.inner c hc p hp hspends
  -- below the new transaction there is nothing of the block
  have hbe : ∀ b, (s.pool.addUnchecked tx).Descends tx.hash b → b = tx.hash ∨ b ∉ B := by
    intro b hd
    rcases ReflTransGen.cases_head hd with rfl | ⟨c, hspends, hcb⟩
    · exact Or.inl rfl
    · refine Or.inr (not_mem_of_descends hi (mem_of_spendsFrom hspends) ?_ hcb)
      exact hch c (had.spendsFrom_self.1 hspends)
  have hn : ∀ b ∈ s.pool.mapTx,
      ¬((s.pool.addUnchecked tx).Descends tx.hash b ∧ (tx.hash ∈ B → b ∈ B)) := by
    rintro b hb ⟨hd, hBb⟩
    rcases hbe b hd with rfl | hout
    · exact had.new hb
    · exact hout (hBb hB)
  have hab : ∀ a, a ∈ s.pool.mapTx → (s.pool.addUnchecked tx).Descends a tx.hash → a ∈ B := by
    intro a ha hd
    by_contra hout
    exact not_mem_of_descends hi ((hm a).2 (Or.inr ha)) hout hd hB
  refine ⟨h.linked.addUnchecked hj had.unspent (fun c hspends => ⟨hB, hch c hspends⟩)
    fun p hno => hno.2 hB, h.kept.addUnchecked hj fun hme => had.new ((han _).1 hme).1,
    h.exact.addUnchecked h.kept hf had.new (fun a ha b hb => ?_) ⟨.refl, id⟩ hn
      fun a => ?_, hi, ?_, ?_, ?_⟩
  · refine and_congr_left fun hBB => ⟨fun hd => ?_, fun hd => hd.addUnchecked had.new⟩
    by_cases hde : (s.pool.addUnchecked tx).Descends a tx.hash
    · refine descends_of_addUnchecked_end had.new hd fun hxb => ?_
      exact hn b hb ⟨hxb, fun _ => hBB (hab a ha hde)⟩
    · exact descends_of_addUnchecked_start had.new hd hde
  · rw [han]
    exact and_congr_right fun _ => ⟨fun hd => ⟨hd, fun _ => hB⟩, And.left⟩
  · intro x hx
    rcases List.mem_append.1 hx with hx | hx
    · exact (hm x).2 (Or.inr (h.present x hx))
    · exact (hm x).2 (Or.inl (List.mem_singleton.1 hx))
  · refine List.nodup_append.2 ⟨h.nodup, List.nodup_singleton _, fun x hx y hy hxy => ?_⟩
    rw [List.mem_singleton] at hy
    exact had.new (hy ▸ hxy ▸ h.present x hx)
  · refine List.pairwise_append.2 ⟨h.ordered.imp_of_mem fun {x y} hx _ hno hspends => ?_,
      List.pairwise_singleton _ _, fun x hx y hy hspends => ?_⟩
    · rcases (spendsFrom_addUnchecked had.new).1 hspends with ⟨rfl, -⟩ | hspends
      · exact had.new (h.present _ hx)
      · exact hno hspends
    · rw [List.mem_singleton.1 hy] at hspends
      exact hl x (hQ x hx) (had.spendsFrom_self.1 hspends)

/-- All transactions of the block come back. -/
theorem Returning.foldl_add (h : s.Returning B Q) (hB : B = Q ++ block.map fun x => x.tx.hash)
    (ho : InOrder B s.pool block) : (block.foldl add s).Returning B B := by
  induction block generalizing s Q with
  | nil =>
    rw [List.map_nil, List.append_nil] at hB
    rw [hB] at h ⊢
    exact h
  | cons x block ih =>
    obtain ⟨had, ha, hp, hl, hr⟩ := ho
    rw [List.map_cons] at hB
    refine ih (h.addUnchecked (CTxMemPoolEntry.fresh_create _ _ _ _) ?_ ?_ had ha hp
      hl) ?_ hr
    · simp [hB]
    · exact fun y hy => hB ▸ List.mem_append_left _ hy
    · rw [hB, List.append_assoc, List.singleton_append]

theorem InOrder.new (h : InOrder B pool block) :
    ∀ x ∈ block.map fun x => x.tx.hash, x ∉ pool.mapTx := by
  induction block generalizing pool with
  | nil => simp
  | cons x block ih =>
    obtain ⟨ha, -, -, -, hr⟩ := h
    rw [List.map_cons, List.forall_mem_cons]
    exact ⟨ha.new, fun y hy hm =>
      ih hr y hy ((mem_addUnchecked ha.new).2 (Or.inr hm))⟩

/-- The pool while `UpdateTransactionsFromBlock` is at work: the transactions of `Q` have been
updated. -/
structure Updating (B Q : List UInt256) (s : MeasuredPool) (cached : TreeMap UInt256 (TreeSet UInt256)) :
    Prop where
  linked : s.pool.LinkedUpTo fun p c => p ∈ B ∧ p ∉ Q ∧ c ∉ B
  kept : s.Kept
  exact : s.ExactFor fun a b => s.pool.Descends a b ∧ (a ∈ B → b ∈ B ∨ a ∈ Q)
  inner : ∀ c ∈ B, ∀ p ∈ s.pool.mapTx, s.pool.SpendsFrom c p → p ∈ B
  present : ∀ x ∈ B, x ∈ s.pool.mapTx
  nodup : B.Nodup
  ordered : B.Pairwise fun x y => ¬s.pool.SpendsFrom x y
  cached : ∀ (a : UInt256) (below : TreeSet UInt256), cached[a]? = some below →
    a ∈ Q ∧ ∀ b, b ∈ below ↔ b ∉ B ∧ s.pool.Descends a b

theorem Returning.updating (h : s.Returning B B) : s.Updating B [] ∅ where
  linked := by simpa using h.linked
  kept := h.kept
  exact := by simpa using h.exact
  inner := h.inner
  present := h.present
  nodup := h.nodup
  ordered := h.ordered
  cached := by simp

theorem Updating.sound {cached : TreeMap UInt256 (TreeSet UInt256)} (h : s.Updating B B cached) :
    s.Sound where
  linked := (linkedUpTo_iff_linked fun _ _ hno => hno.2.1 hno.1).1 h.linked
  kept := h.kept
  exact := h.exact.congr h.kept fun _ _ _ _ => and_iff_left Or.inr

/-- The entries that spend from a transaction are found by their inputs. -/
theorem mem_spenders {hidden : UInt256 → UInt256 → Prop} (h : s.pool.LinkedUpTo hidden)
    {hash : UInt256} : child ∈ s.spenders hash ↔ s.pool.SpendsFrom child hash := by
  rw [spenders, List.mem_dedup, List.mem_map]
  constructor
  · rintro ⟨⟨outpoint, tx⟩, hm, rfl⟩
    obtain ⟨hm, hh⟩ := List.mem_filter.1 hm
    have hnext := TreeMap.mem_toList_iff_getElem?_eq_some.1 hm
    exact ⟨outpoint, ((h.nextTx outpoint tx).1 hnext).2, of_decide_eq_true hh⟩
  · rintro ⟨outpoint, hm, rfl⟩
    obtain ⟨tx, htx⟩ := exists_getElem? (mem_of_mem_inputsOf hm)
    obtain rfl := h.hashes child tx htx
    refine ⟨(outpoint, tx), List.mem_filter.2 ⟨?_, decide_eq_true rfl⟩, rfl⟩
    exact TreeMap.mem_toList_iff_getElem?_eq_some.2 ((h.nextTx outpoint tx).2 ⟨htx, hm⟩)

/-- A transaction is linked with a child. -/
def link (x : UInt256) (links : TreeMap UInt256 TxLinks) (child : UInt256) : TreeMap UInt256 TxLinks :=
  updateParent (updateChild links x (·.insert child)) child (·.insert x)

theorem getD_link {links : TreeMap UInt256 TxLinks} {x : UInt256} :
    let after := (link x links child).getD k {}
    (∀ p, p ∈ after.parents ↔ p ∈ (links.getD k {}).parents ∨ p = x ∧ k = child) ∧
      ∀ c, c ∈ after.children ↔ c ∈ (links.getD k {}).children ∨ k = x ∧ c = child := by
  have hi : ∀ (set : TreeSet UInt256) (a b : UInt256), a ∈ set.insert b ↔ a ∈ set ∨ a = b := by
    intro set a b
    rw [mem_set_insert, or_comm]
  rw [link, updateParent, updateChild, getD_updateLinks, getD_updateLinks]
  by_cases hk : k = child <;> by_cases hx : k = x
  · simp only [if_pos hk, if_pos hx, hi, and_iff_left hk, and_iff_right hx, implies_true, and_self]
  · simp only [if_pos hk, hi, and_iff_left hk, hx, if_false, false_and, or_false, implies_true,
      and_self]
  · simp only [if_pos hx, hi, and_iff_right hx, hk, if_false, and_false, or_false, implies_true,
      and_self]
  · simp only [hk, hx, if_false, and_false, false_and, or_false, implies_true, and_self]

/-- The loop that links a transaction with its children. -/
theorem linksOf_foldl_link (x : UInt256) (children : List UInt256) (links : TreeMap UInt256 TxLinks) :
    let after := (children.foldl (link x) links).getD k {}
    (∀ p, p ∈ after.parents ↔ p ∈ (links.getD k {}).parents ∨ p = x ∧ k ∈ children) ∧
      ∀ c, c ∈ after.children ↔ c ∈ (links.getD k {}).children ∨ k = x ∧ c ∈ children := by
  induction children generalizing links with
  | nil => simp
  | cons child children ih =>
    obtain ⟨hpa, hch⟩ := ih (link x links child)
    obtain ⟨hp, hc⟩ := @getD_link k child links x
    refine ⟨fun p => (hpa p).trans ?_, fun c => (hch c).trans ?_⟩
    · rw [hp, List.mem_cons]
      tauto
    · rw [hc, List.mem_cons]
      tauto

variable {cached : TreeMap UInt256 (TreeSet UInt256)} {x : UInt256} {pre : List UInt256}

/-- The first half of a turn brings in the links to the children outside the block. -/
theorem Updating.linked_linkChildren (h : s.Updating B Q cached) (hx : x ∈ B) :
    (s.linkChildren B x).pool.LinkedUpTo fun p c => p ∈ B ∧ p ∉ x :: Q ∧ c ∉ B := by
  have hm : ∀ c, c ∈ (s.spenders x).filter (fun child => child ∉ B) ↔
      s.pool.SpendsFrom c x ∧ c ∉ B := by
    intro c
    rw [List.mem_filter, mem_spenders h.linked, decide_eq_true_iff]
  have hl := fun k => @linksOf_foldl_link k x ((s.spenders x).filter fun child => child ∉ B)
    s.pool.mapLinks
  have hv : ∀ p c, s.pool.SpendsFrom c p ∧ ¬(p ∈ B ∧ p ∉ x :: Q ∧ c ∉ B) ↔
      (s.pool.SpendsFrom c p ∧ ¬(p ∈ B ∧ p ∉ Q ∧ c ∉ B)) ∨ p = x ∧ s.pool.SpendsFrom c x ∧ c ∉ B := by
    intro p c
    rw [List.mem_cons]
    by_cases hp : p = x
    · subst hp
      tauto
    · tauto
  have hspends : ∀ c p, (s.linkChildren B x).pool.SpendsFrom c p ↔ s.pool.SpendsFrom c p :=
    fun _ _ => Iff.rfl
  refine ⟨h.linked.hashes, h.linked.nextTx, fun k hk p => ?_, fun k hk c => ?_⟩
  · refine ((hl k).1 p).trans ?_
    rw [hm, hspends, hv, and_or_left]
    refine or_congr (h.linked.parents k hk p) ⟨fun hnew => ⟨?_, hnew⟩, And.right⟩
    exact hnew.1 ▸ h.present x hx
  · refine ((hl k).2 c).trans ?_
    rw [hm, hspends, hv, and_or_left]
    refine or_congr (h.linked.children k hk c) ⟨fun hnew => ⟨?_, hnew⟩, And.right⟩
    exact mem_of_spendsFrom hnew.2.1

/-- From a transaction that has been updated the links lead to all its descendants. -/
theorem reach_iff_descends (hl : pool.LinkedUpTo fun p c => p ∈ B ∧ p ∉ Q ∧ c ∉ B)
    (hB : B = pre ++ Q) (hi : ∀ c ∈ B, ∀ p ∈ pool.mapTx, pool.SpendsFrom c p → p ∈ B)
    (hpr : ∀ x ∈ B, x ∈ pool.mapTx) (ho : B.Pairwise fun x y => ¬pool.SpendsFrom x y)
    (ha : a ∈ Q) :
    CachedWalk.Reach (fun hash => (pool.linksOf hash).children) a b ↔ pool.Descends a b := by
  have haP : a ∈ pool.mapTx := hpr a (hB ▸ List.mem_append_right _ ha)
  constructor
  · intro hab
    suffices hb : b ∈ pool.mapTx ∧ pool.Descends a b from hb.2
    induction hab with
    | refl => exact ⟨haP, .refl⟩
    | tail _ hstep ih =>
      obtain ⟨hm, hspends, -⟩ := (hl.children _ ih.1 _).1 hstep
      exact ⟨hm, ih.2.tail hspends⟩
  · intro hab
    -- a path stays among the transactions that have been updated until it leaves the block
    suffices hb : (b ∈ Q ∨ b ∉ B) ∧
        CachedWalk.Reach (fun hash => (pool.linksOf hash).children) a b from hb.2
    induction hab with
    | refl => exact ⟨Or.inl ha, .refl⟩
    | @tail p c hap hspends ih =>
      have hp : p ∈ pool.mapTx := mem_of_descends haP hap
      have hv : ¬(p ∈ B ∧ p ∉ Q ∧ c ∉ B) := fun hno => ih.1.elim hno.2.1 fun hout => hout hno.1
      refine ⟨?_, ih.2.tail ((hl.children p hp c).2
        ⟨mem_of_spendsFrom hspends, hspends, hv⟩)⟩
      by_cases hc : c ∈ B
      · have hpB := hi c hc p hp hspends
        have hpQ := ih.1.resolve_right fun hout => hout hpB
        rw [hB, List.pairwise_append] at ho
        rw [hB, List.mem_append] at hc
        exact Or.inl (hc.resolve_left fun hcp => ho.2.2 c hcp p hpQ hspends)
      · exact Or.inr hc

theorem Updating.kept_linkChildren (h : s.Updating B Q cached) (hx : x ∈ B) :
    (s.linkChildren B x).Kept := by
  refine ⟨h.kept.entries, fun hash => ?_⟩
  have hch : ∀ c ∈ (s.spenders x).filter (fun child => child ∉ B), c ∈ s.pool.mapLinks :=
    fun c hc => (h.kept.links c).2
      (mem_of_spendsFrom ((mem_spenders h.linked).1 (List.mem_filter.1 hc).1))
  have hxL := (h.kept.links x).2 (h.present x hx)
  suffices hf : ∀ (children : List UInt256) (links : TreeMap UInt256 TxLinks),
      (∀ c ∈ children, c ∈ links) → x ∈ links →
      (hash ∈ children.foldl (link x) links ↔ hash ∈ links) by
    exact (hf _ _ hch hxL).trans (h.kept.links hash)
  intro children
  induction children with
  | nil => exact fun _ _ _ => Iff.rfl
  | cons child children ih =>
    intro links hin hxi
    have ho : ∀ k, k ∈ link x links child ↔ k ∈ links := by
      intro k
      rw [link, updateParent, mem_updateLinks, updateChild, mem_updateLinks]
      constructor
      · rintro (rfl | rfl | hk)
        · exact hin _ List.mem_cons_self
        · exact hxi
        · exact hk
      · exact fun hk => Or.inr (Or.inr hk)
    rw [List.foldl_cons, ih _ (fun c hc => (ho c).2 (hin c (List.mem_cons_of_mem _ hc)))
      ((ho x).2 hxi), ho]

/-- The walk of a turn finds the descendants outside the block. -/
theorem Updating.mem_foundBelow (h : s.Updating B Q cached) (hB : B = pre ++ x :: Q) :
    b ∈ (s.linkChildren B x).foundBelow cached B x ↔ b ∉ B ∧ s.pool.Descends x b := by
  have hx : x ∈ B := by simp [hB]
  have hl := h.linked_linkChildren hx
  have hr : ∀ a ∈ x :: Q, ∀ b, CachedWalk.Reach
      (fun hash => ((s.linkChildren B x).pool.linksOf hash).children) a b ↔ s.pool.Descends a b :=
    fun a ha b => reach_iff_descends hl hB h.inner h.present h.ordered ha
  have hri : CachedWalk.Right (fun hash => ((s.linkChildren B x).pool.linksOf hash).children)
      (· ∈ B) cached := by
    intro a below hb
    obtain ⟨ha, hm⟩ := h.cached a below hb
    refine ⟨hB ▸ List.mem_append_right _ (List.mem_cons_of_mem _ ha), fun b => ?_⟩
    rw [hm, hr a (List.mem_cons_of_mem _ ha)]
  have hst : CachedWalk.Progress (fun hash => ((s.linkChildren B x).pool.linksOf hash).children)
      (· ∈ B) (· ∈ ((s.linkChildren B x).pool.linksOf x).children)
      ((s.linkChildren B x).pool.linksOf x).children ∅ ∅ :=
    ⟨fun c hc => ⟨c, hc.resolve_right TreeSet.not_mem_emptyc, .refl⟩, fun _ => Or.inl, by simp, by simp,
      by simp, by simp⟩
  -- the entries below the transaction are in the pool
  have hf : ∀ c ∈ ((s.linkChildren B x).pool.linksOf x).children, ∀ d, CachedWalk.Reach
      (fun hash => ((s.linkChildren B x).pool.linksOf hash).children) c d →
        d ∈ s.pool.mapTx.keys.toFinset := by
    intro c hc d hcd
    rw [List.mem_toFinset, TreeMap.mem_keys]
    exact mem_of_descends (h.present x hx)
      ((hr x List.mem_cons_self d).1 (ReflTransGen.head hc hcd))
  have hsi : (s.pool.mapTx.keys.toFinset.filter (· ∉ (∅ : Finset UInt256))).card ≤
      s.pool.mapTx.size :=
    calc (s.pool.mapTx.keys.toFinset.filter (· ∉ (∅ : Finset UInt256))).card
      _ ≤ s.pool.mapTx.keys.toFinset.card := Finset.card_filter_le _ _
      _ ≤ s.pool.mapTx.keys.length := List.toFinset_card_le _
      _ = s.pool.mapTx.size := TreeMap.length_keys
  rw [foundBelow, List.mem_filter, TreeSet.mem_toList, decide_eq_true_iff, and_comm]
  refine and_congr_right fun hout => ?_
  refine (hst.mem_walk hri _ hf hsi hout).trans ?_
  rw [← hr x List.mem_cons_self]
  constructor
  · rintro ⟨c, hc, hcb⟩
    exact ReflTransGen.head hc hcb
  · intro hxb
    rcases ReflTransGen.cases_head hxb with rfl | ⟨c, hc, hcb⟩
    · exact absurd hx hout
    · exact ⟨c, hc, hcb⟩

/-- What a turn puts into the cache; an entry without descendants is not put there. -/
theorem getElem?_foldl_cache (found : List UInt256) (cached : TreeMap UInt256 (TreeSet UInt256))
    (a : UInt256) :
    (found.foldl (fun cached hash => cached.insert x ((cached.getD x ∅).insert hash)) cached)[a]? =
      if a = x ∧ found ≠ [] then
        some (found.foldl (fun below hash => below.insert hash) (cached.getD x ∅))
      else cached[a]? := by
  induction found generalizing cached with
  | nil => simp
  | cons hash found ih =>
    rw [List.foldl_cons, ih, List.foldl_cons, TreeMap.getD_insert_self, getElem?_insert_eq]
    by_cases ha : a = x
    · by_cases hf : found = [] <;> simp [ha, hf]
    · simp [ha]

theorem Updating.step (h : s.Updating B Q cached) (hB : B = pre ++ x :: Q) :
    ((s.linkChildren B x).updateForDescendants cached B x).1.Updating B (x :: Q)
      ((s.linkChildren B x).updateForDescendants cached B x).2 := by
  have hx : x ∈ B := by simp [hB]
  have hxQ : x ∉ Q := by
    have hn := h.nodup
    rw [hB, List.nodup_append] at hn
    exact (List.nodup_cons.1 hn.2.1).1
  have hf : ∀ b, b ∈ (s.linkChildren B x).foundBelow cached B x ↔ b ∉ B ∧ s.pool.Descends x b :=
    fun b => h.mem_foundBelow hB
  have hnot : x ∉ (s.linkChildren B x).foundBelow cached B x := fun hm => ((hf x).1 hm).1 hx
  refine ⟨h.linked_linkChildren hx, ?_, ?_, h.inner, h.present, h.nodup, h.ordered, fun a below hbe => ?_⟩
  · refine ⟨fun hash => ?_, (h.kept_linkChildren hx).links⟩
    rw [TreeMap.mem_iff_isSome_getElem?, getElem?_updateForDescendants hnot]
    refine Iff.trans ?_ (h.kept.entries hash)
    rw [TreeMap.mem_iff_isSome_getElem?]
    split
    · rw [Option.isSome_map]
      rfl
    · split
      · rw [Option.isSome_map]
        rfl
      · rfl
  · have he : (s.linkChildren B x).ExactFor fun a b =>
        s.pool.Descends a b ∧ (a ∈ B → b ∈ B ∨ a ∈ Q) := ⟨h.exact.descendants, h.exact.ancestors⟩
    refine he.updateForDescendants (h.kept_linkChildren hx) (h.present x hx) hnot
      (fun b hb => ?_) fun a _ b _ => ?_
    · obtain ⟨hout, hd⟩ := (hf b).1 hb
      exact ⟨mem_of_descends (h.present x hx) hd, fun hR => (hR.2 hx).elim hout hxQ⟩
    · rw [hf, List.mem_cons]
      change s.pool.Descends a b ∧ _ ↔ _
      by_cases ha : a = x
      · subst ha
        by_cases hb : b ∈ B <;> simp [hb, hx, hxQ]
      · simp [ha]
  · change (List.foldl _ cached ((s.linkChildren B x).foundBelow cached B x))[a]? = some below at hbe
    rw [getElem?_foldl_cache] at hbe
    split at hbe
    next hnew =>
      obtain ⟨rfl, -⟩ := hnew
      cases hbe
      have hno : cached.getD a ∅ = ∅ := by
        refine TreeMap.getD_eq_fallback fun hm => ?_
        obtain ⟨below, hbe⟩ := exists_getElem? hm
        exact hxQ (h.cached a below hbe).1
      refine ⟨List.mem_cons_self, fun b => ?_⟩
      rw [CachedWalk.mem_foldl_insert, hno, hf]
      exact or_iff_right TreeSet.not_mem_emptyc
    next =>
      obtain ⟨ha, hm⟩ := h.cached a below hbe
      exact ⟨List.mem_cons_of_mem _ ha, hm⟩

theorem Updating.sound_updateTransactionsFromBlock (h : s.Updating B [] ∅) :
    (s.updateTransactionsFromBlock B).Sound := by
  -- the transactions are updated from the last one to the first
  suffices hsu : ∀ pre Q, B = pre ++ Q →
      (fun updating : MeasuredPool × TreeMap UInt256 (TreeSet UInt256) =>
        Updating B Q updating.1 updating.2)
      (Q.foldr (fun hash updating => if updating.1.pool.mapTx.contains hash then
        (updating.1.linkChildren B hash).updateForDescendants updating.2 B hash else updating) (s, ∅)) from
    (hsu [] B rfl).sound
  intro pre Q hB
  induction Q generalizing pre with
  | nil => exact h
  | cons x Q ih =>
    have hr := ih (pre ++ [x]) (by rw [hB, List.append_assoc, List.singleton_append])
    have hc := TreeMap.contains_iff_mem.2 (hr.present x (by simp [hB]))
    rw [List.foldr_cons, if_pos hc]
    exact hr.step hB

theorem Sound.readd (h : s.Sound) (ho : InOrder (block.map fun x => x.tx.hash) s.pool block) :
    (s.readd block).Sound :=
  (((h.returning ho.new).foldl_add (List.nil_append _).symm ho).updating).sound_updateTransactionsFromBlock

end Block

section Runs

/-- What makes an operation complete: a transaction comes in with its ancestors in the pool, a set is
removed with everything that descends from it or one entry without ancestors with an update of its
descendants, and the transactions of a block come back in order. -/
def Complete (s : MeasuredPool) : PoolOperation → Prop
  | .add x => s.pool.Acceptable x.tx ∧ s.pool.AncestorsAre x.tx x.setAncestors
  | .removeRecursive _ => True
  | .removeStaged stage => (∀ x ∈ stage, x ∈ s.pool.mapTx) ∧
    ∀ p ∈ stage, ∀ c, s.pool.SpendsFrom c p → c ∈ stage
  | .confirm hash => hash ∈ s.pool.mapTx ∧ ∀ p ∈ s.pool.mapTx, ¬s.pool.SpendsFrom hash p
  | .readd block => InOrder (block.map fun x => x.tx.hash) s.pool block

/-- Nobody in the pool spends from a transaction that comes in alone. -/
def Childless (s : MeasuredPool) : PoolOperation → Prop
  | .add x => ∀ child, ¬s.pool.SpendsFrom child x.tx.hash
  | _ => True

/-- A condition on every operation of a run, in the pool where it is done. -/
def Throughout (P : MeasuredPool → PoolOperation → Prop) : MeasuredPool → List PoolOperation → Prop
  | _, [] => True
  | s, operation :: operations => P s operation ∧ Throughout P (s.apply operation) operations

/-- Every entry has the counts, the sizes, the fees and the signature operations of the transactions
that descend from it and of those it descends from. -/
def Exact (s : MeasuredPool) : Prop :=
  ∀ k ∈ s.pool.mapTx, ∃ entry, s.entries[k]? = some entry ∧
    entry.withDescendants = s.total CTxMemPoolEntry.own (s.pool.Descends k) ∧
    entry.ancestorCost = s.total CTxMemPoolEntry.ownCost fun hash => s.pool.Descends hash k

theorem sound_empty (mapDeltas : TreeMap UInt256 CAmount) (nBytesPerSigOp : Nat) :
    Sound { mapDeltas, nBytesPerSigOp } :=
  ⟨linked_empty, ⟨by simp, by simp⟩, ⟨by simp, by simp⟩⟩

theorem Sound.apply (h : s.Sound) {operation : PoolOperation} (hc : s.Complete operation)
    (hch : s.Childless operation) : (s.apply operation).Sound := by
  cases operation with
  | add x =>
    exact h.addUnchecked (CTxMemPoolEntry.fresh_create _ _ _ _) hc.1 hch hc.2
  | removeRecursive origTx => exact h.removeRecursive origTx
  | removeStaged stage =>
    refine h.removeStaged_closed (nodup_toList stage) (fun x hx => ?_) fun p hp c hspends => ?_
    · exact hc.1 x (TreeSet.mem_toList.1 hx)
    · exact TreeSet.mem_toList.2 (hc.2 p (TreeSet.mem_toList.1 hp) c hspends)
  | confirm hash => exact h.removeStaged_first hc.1 hc.2
  | readd block => exact h.readd hc

theorem Sound.run {operations : List PoolOperation} (h : s.Sound)
    (hr : Throughout (fun s operation => s.Complete operation ∧ s.Childless operation) s operations) :
    (s.run operations).Sound := by
  induction operations generalizing s with
  | nil => exact h
  | cons operation operations ih => exact ih (h.apply hr.1.1 hr.1.2) hr.2

theorem Sound.exact_stats (h : s.Sound) : s.Exact := by
  intro k hk
  obtain ⟨entry, he⟩ := exists_getElem? ((h.kept.entries k).2 hk)
  exact ⟨entry, he, h.exact.descendants k entry he, h.exact.ancestors k entry he⟩

/-- After every run of complete operations from an empty pool, in which a transaction comes in alone
only while nobody in the pool spends from it, the statistics are exact. -/
theorem exact_run (mapDeltas : TreeMap UInt256 CAmount) (nBytesPerSigOp : Nat)
    (operations : List PoolOperation)
    (h : Throughout (fun s operation => s.Complete operation ∧ s.Childless operation)
      { mapDeltas, nBytesPerSigOp } operations) :
    (run { mapDeltas, nBytesPerSigOp } operations).Exact :=
  ((sound_empty mapDeltas nBytesPerSigOp).run h).exact_stats

/-- A transaction and one that spends from it. -/
def spendTx (hash : UInt256) (prevout : COutPoint) : CTransaction where
  hash
  nVersion := 2
  vin := [⟨prevout, [], 0xffffffff⟩]
  vout := []
  nLockTime := 0

def parentAddition : PoolAddition where
  tx := spendTx 1 ⟨9, 0⟩
  nFee := 1000
  nTxWeight := 400
  sigOpCost := 4

def childAddition : PoolAddition where
  tx := spendTx 2 ⟨1, 0⟩
  nFee := 2000
  nTxWeight := 800
  sigOpCost := 8
  setAncestors := (∅ : TreeSet UInt256).insert 1

theorem complete_parentAddition (h : s.pool.Acceptable (spendTx 1 ⟨9, 0⟩)) (hfirst : 9 ∉ s.pool.mapTx) :
    s.Complete (.add parentAddition) :=
  ⟨h, h.ancestorsAre_empty (by simpa [parentAddition, spendTx] using hfirst)⟩

theorem complete_childAddition : Complete (run {} [.add parentAddition]) (.add childAddition) := by
  have ha : (run {} [.add parentAddition]).pool.Acceptable (spendTx 2 ⟨1, 0⟩) := by decide +kernel
  have hke : (run {} [.add parentAddition]).pool.mapTx.keys = [1] := by decide +kernel
  refine ⟨ha, fun hash => ?_⟩
  have hm : hash ∈ (run {} [.add parentAddition]).pool.mapTx ↔ hash = 1 := by
    rw [← TreeMap.mem_keys, hke, List.mem_singleton]
  have hse : hash ∈ childAddition.setAncestors ↔ hash = 1 := by
    rw [childAddition, mem_set_insert]
    exact or_iff_left TreeSet.not_mem_emptyc
  rw [hse, hm]
  refine ⟨?_, And.left⟩
  rintro rfl
  refine ⟨rfl, ReflTransGen.single ((spendsFrom_addUnchecked ha.new).2 (Or.inl ⟨rfl, ?_⟩))⟩
  exact List.mem_singleton_self _

/-- The pool after a transaction and its child came in. -/
def parentAndChild : MeasuredPool := run {} [.add parentAddition, .add childAddition]

theorem complete_confirm : parentAndChild.Complete (.confirm 1) := by
  have hi : parentAndChild.pool.inputsOf 1 = [⟨9, 0⟩] := by decide +kernel
  refine ⟨by decide +kernel, ?_⟩
  rintro p hp ⟨outpoint, hm, rfl⟩
  rw [hi, List.mem_singleton] at hm
  subst hm
  exact absurd hp (by decide +kernel)

/-- A transaction and its child come in, the transaction is confirmed, and its block is disconnected. -/
theorem exact_run_reorg : Throughout (fun s operation => s.Complete operation ∧ s.Childless operation) {}
      [.add parentAddition, .add childAddition, .confirm 1, .readd [parentAddition]] ∧
    (run {} [.add parentAddition, .add childAddition, .confirm 1, .readd [parentAddition]]).Exact := by
  have hr : Complete (parentAndChild.apply (.confirm 1)) (.readd [parentAddition]) := by
    have ha : (parentAndChild.apply (.confirm 1)).pool.Acceptable (spendTx 1 ⟨9, 0⟩) := by
      decide +kernel
    refine ⟨ha, ha.ancestorsAre_empty (by decide +kernel), by decide +kernel, ?_, trivial⟩
    intro child hc
    rw [List.mem_singleton.1 hc]
    decide +kernel
  have h : Throughout (fun s operation => s.Complete operation ∧ s.Childless operation) {}
      [.add parentAddition, .add childAddition, .confirm 1, .readd [parentAddition]] :=
    ⟨⟨complete_parentAddition (by decide +kernel) (by decide +kernel),
      childless_of_keys (by decide +kernel)⟩, ⟨complete_childAddition,
      childless_of_keys (by decide +kernel)⟩, ⟨complete_confirm, trivial⟩,
      ⟨hr, trivial⟩, trivial⟩
  exact ⟨h, exact_run ∅ 20 _ h⟩

/-- A confirmed transaction that comes in again alone does not know of its child. -/
theorem not_exact_of_child : Throughout Complete {}
      [.add parentAddition, .add childAddition, .confirm 1, .add parentAddition] ∧
    ¬(run {} [.add parentAddition, .add childAddition, .confirm 1, .add parentAddition]).Exact := by
  refine ⟨⟨complete_parentAddition (by decide +kernel) (by decide +kernel), complete_childAddition,
    complete_confirm, complete_parentAddition (by decide +kernel) (by decide +kernel), trivial⟩,
    fun he => ?_⟩
  have hke : (run {} [.add parentAddition, .add childAddition, .confirm 1,
      .add parentAddition]).pool.mapTx.keys = [1, 2] := by decide +kernel
  have hspends : (run {} [.add parentAddition, .add childAddition, .confirm 1,
      .add parentAddition]).pool.SpendsFrom 2 1 := by decide +kernel
  obtain ⟨entry, hen, hd, -⟩ := he 1 (by decide +kernel)
  obtain ⟨child, hch, -⟩ := he 2 (by decide +kernel)
  have hc : entry.withDescendants.count = 1 := by
    have hn : (parentAndChild.apply (.confirm 1)).entries[(1 : UInt256)]? = none :=
      getElem?_removeStaged.trans (if_pos (List.mem_singleton_self 1))
    have hnew : (1 : UInt256) ∉ (parentAndChild.apply (.confirm 1)).entries := by
      rw [TreeMap.mem_iff_isSome_getElem?, hn]
      exact Bool.false_ne_true
    have ha := hen.symm.trans ((getElem?_addUnchecked hnew TreeSet.not_mem_emptyc).trans
      (if_pos rfl))
    rw [Option.some.inj ha]
    decide +kernel
  -- both entries descend from the transaction
  rw [← sum_figure_eq_total (by decide : ([1, 2] : List UInt256).Nodup) fun hash => ?_] at hd
  · rw [hd] at hc
    simp only [List.map_cons, List.map_nil, List.sum_cons, List.sum_nil, figure, hen, hch] at hc
    have ht : (1 : Int) + (1 + 0) = 1 := hc
    exact absurd ht (by decide)
  · rw [← TreeMap.mem_keys, hke]
    refine ⟨fun hm => ⟨hm, ?_⟩, And.left⟩
    rcases List.mem_cons.1 hm with rfl | hm
    · exact .refl
    · rw [List.mem_singleton.1 hm]
      exact ReflTransGen.single hspends

end Runs

end MeasuredPool

end Cmusic
