import Cmusic.DeploymentReach
import Mathlib.Data.List.Sort

/-! Trees of blocks over a genesis block, the skip pointers that lead to an ancestor, and the median of
the times along a branch. -/
namespace Cmusic

open CBlockIndex

/-- Blocks with their parents, from genesis blocks of height 0 on. -/
structure BlockTree where
  Mem : CBlockIndex → Prop
  genesis : ∀ {index : CBlockIndex}, Mem index → index.root.header.nHeight.toInt32.toInt = 0
  parent : ∀ {index prev : CBlockIndex}, Mem index → index.pprev = some prev → Mem prev

namespace BlockTree

variable {tree : BlockTree} {index anc : CBlockIndex}

theorem nHeight_eq (h : tree.Mem index) : index.nHeight = index.prevs.length := by
  rw [nHeight, tree.genesis h, Int.zero_add]

/-- What is kept from a block to its parent is kept along a whole branch. -/
theorem drop_induction {P : CBlockIndex → Prop}
    (hstep : ∀ {index prev : CBlockIndex}, tree.Mem index → P index → index.pprev = some prev →
      P prev)
    (hm : tree.Mem index) (h : P index) {k : Nat} (hd : index.chain.drop k = anc.chain) :
    tree.Mem anc ∧ P anc := by
  induction k generalizing index with
  | zero =>
    obtain ⟨self, prevs⟩ := index
    cases hd
    exact ⟨hm, h⟩
  | succ k ih =>
    obtain ⟨self, prevs⟩ := index
    cases prevs with
    | nil => cases k <;> cases hd
    | cons prev prevs =>
      have hp : CBlockIndex.pprev ⟨self, prev :: prevs⟩ = some ⟨prev, prevs⟩ := rfl
      exact ih (tree.parent hm hp) (hstep hm h hp) hd

theorem mem_getAncestor (hm : tree.Mem index) {height : Int}
    (h : index.getAncestor height = some anc) : tree.Mem anc :=
  (drop_induction (P := fun _ => True) (fun _ _ _ => trivial) hm trivial
    (chain_of_getAncestor h).symm).1

/-- An ancestor has the height that was asked for. -/
theorem nHeight_getAncestor (hm : tree.Mem index) {height : Int}
    (h : index.getAncestor height = some anc) :
    anc.nHeight = height ∧ 0 ≤ height ∧ height ≤ index.nHeight := by
  have hb : 0 ≤ height ∧ height ≤ index.nHeight := by
    by_contra hout
    rw [getAncestor, if_pos (by omega)] at h
    cases h
  have hl := congrArg List.length (chain_of_getAncestor h)
  have hh := nHeight_eq hm
  have ha := nHeight_eq (mem_getAncestor hm h)
  simp only [CBlockIndex.chain, List.length_cons, List.length_drop] at hl
  omega

theorem exists_getAncestor (hm : tree.Mem index) {height : Int} (hp : 0 ≤ height)
    (hle : height ≤ index.nHeight) : ∃ anc, index.getAncestor height = some anc := by
  have hh := nHeight_eq hm
  refine CBlockIndex.exists_getAncestor hle hp ?_
  simp only [CBlockIndex.chain, List.length_cons]
  omega

/-- The ancestors of an ancestor are those of the block. -/
theorem getAncestor_getAncestor (hm : tree.Mem index) {height low : Int}
    (h : index.getAncestor height = some anc) (hle : low ≤ height) :
    anc.getAncestor low = index.getAncestor low := by
  obtain ⟨hh, -, ht⟩ := nHeight_getAncestor hm h
  have hc := chain_of_getAncestor h
  by_cases hn : low < 0
  · rw [getAncestor, getAncestor, if_pos (.inr hn), if_pos (.inr hn)]
  · have hst : (index.nHeight - height).toNat + (height - low).toNat =
        (index.nHeight - low).toNat := by omega
    rw [getAncestor, getAncestor, if_neg (by omega), if_neg (by omega), hc, hh, List.drop_drop, hst]

end BlockTree

/-- Turn the lowest one bit of a number into a zero. -/
def invertLowestOne (n : Nat) : Nat := n &&& (n - 1)

def getSkipHeight (height : Nat) : Nat :=
  if height < 2 then 0
  else if height &&& 1 ≠ 0 then invertLowestOne (invertLowestOne (height - 1)) + 1
  else invertLowestOne height

theorem invertLowestOne_le (n : Nat) : invertLowestOne n ≤ n - 1 := Nat.and_le_right

/-- A skip pointer leads down. -/
theorem getSkipHeight_lt {height : Nat} (h : 0 < height) : getSkipHeight height < height := by
  have hlo := invertLowestOne_le (height - 1)
  have hl := invertLowestOne_le (invertLowestOne (height - 1))
  have he := invertLowestOne_le height
  unfold getSkipHeight
  split
  · exact h
  · split <;> omega

section Skip

variable (pskip : CBlockIndex → Option CBlockIndex)

/-- The loop of `GetAncestor`; `none` stands for the failed assertion on a missing parent. -/
def walkAncestor (height : Nat) (indexWalk : CBlockIndex) (heightWalk : Nat) : Option CBlockIndex :=
  if heightWalk > height then
    let heightSkip := getSkipHeight heightWalk
    let heightSkipPrev := getSkipHeight (heightWalk - 1)
    match pskip indexWalk with
    | some skip =>
      if heightSkip = height ∨ (heightSkip > height ∧
          ¬(heightSkipPrev + 2 < heightSkip ∧ heightSkipPrev ≥ height)) then
        walkAncestor height skip heightSkip
      else indexWalk.pprev.bind fun prev => walkAncestor height prev (heightWalk - 1)
    | none => indexWalk.pprev.bind fun prev => walkAncestor height prev (heightWalk - 1)
  else some indexWalk
  termination_by heightWalk
  decreasing_by
    all_goals first
      | exact getSkipHeight_lt (by omega)
      | omega

/-- `GetAncestor` as it walks over the skip pointers. -/
def skipAncestor (index : CBlockIndex) (height : Int) : Option CBlockIndex :=
  if height > index.nHeight ∨ height < 0 then none
  else walkAncestor pskip height.toNat index index.nHeight.toNat

/-- `BuildSkip` for a block that is inserted. -/
def buildSkip (index : CBlockIndex) : CBlockIndex → Option CBlockIndex :=
  Function.update pskip index
    (index.pprev.bind fun prev => skipAncestor pskip prev (getSkipHeight index.nHeight.toNat))

end Skip

/-- Blocks that were inserted one after the other, the last one first: each of them is a genesis block
of height 0, or its parent was there. -/
inductive Inserted : List CBlockIndex → Prop
  | nil : Inserted []
  | insert {blocks : List CBlockIndex} {index : CBlockIndex} (h : Inserted blocks)
      (genesis : index.pprev = none → index.nHeight = 0)
      (parent : ∀ prev, index.pprev = some prev → prev ∈ blocks) : Inserted (index :: blocks)

/-- The skip pointers after these insertions. -/
def skipsBuilt (blocks : List CBlockIndex) : CBlockIndex → Option CBlockIndex :=
  blocks.foldr (fun index pskip => buildSkip pskip index) fun _ => none

namespace BlockTree

variable {tree : BlockTree} {index prev : CBlockIndex} {pskip : CBlockIndex → Option CBlockIndex}

theorem getAncestor_self (hm : tree.Mem index) : index.getAncestor index.nHeight = some index := by
  have hh := nHeight_eq hm
  rw [getAncestor, if_neg (by omega), Int.sub_self]
  rfl

theorem getAncestor_pprev (hm : tree.Mem index) (hp : index.pprev = some prev) {height : Int}
    (hlt : height < index.nHeight) : prev.getAncestor height = index.getAncestor height := by
  have hh := nHeight_eq hm
  obtain ⟨self, prevs⟩ := index
  cases prevs with
  | nil => cases hp
  | cons next prevs =>
    cases hp
    rw [List.length_cons] at hh
    have ho : getAncestor ⟨self, next :: prevs⟩
        (nHeight ⟨self, next :: prevs⟩ - 1) = some ⟨next, prevs⟩ := by
      rw [getAncestor, if_neg (by omega), Int.sub_sub_self]
      rfl
    exact getAncestor_getAncestor hm ho (by omega)

theorem exists_pprev (hm : tree.Mem index) (hp : 0 < index.nHeight) :
    ∃ prev, index.pprev = some prev ∧ prev.nHeight = index.nHeight - 1 := by
  have hh := nHeight_eq hm
  obtain ⟨self, prevs⟩ := index
  cases prevs with
  | nil =>
    rw [List.length_nil] at hh
    omega
  | cons next prevs =>
    refine ⟨⟨next, prevs⟩, rfl, ?_⟩
    rw [nHeight_eq (tree.parent hm rfl), hh]
    simp

/-- The skip pointers of a tree lead to the ancestors at their heights. -/
def SkipsRight (tree : BlockTree) (pskip : CBlockIndex → Option CBlockIndex) : Prop :=
  ∀ {index : CBlockIndex}, tree.Mem index → 0 < index.nHeight →
    pskip index = index.getAncestor (getSkipHeight index.nHeight.toNat)

/-- The walk over the skip pointers ends at the ancestor. -/
theorem walkAncestor_eq (hskips : SkipsRight tree pskip) {he height : Nat} (hm : tree.Mem index)
    (hw : index.nHeight = he) (hle : height ≤ he) :
    walkAncestor pskip height index he = index.getAncestor height := by
  induction he using Nat.strong_induction_on generalizing index height with
  | _ he ih =>
    rw [walkAncestor]
    split
    next hd =>
      have hskip : getSkipHeight he < he := getSkipHeight_lt (by omega)
      have hski := hskips hm (by omega)
      rw [hw, Int.toNat_natCast] at hski
      obtain ⟨skip, ha⟩ : ∃ skip, index.getAncestor (getSkipHeight he) = some skip :=
        exists_getAncestor hm (by omega) (by omega)
      rw [hski, ha]
      dsimp only
      split
      next hf =>
        have hsk := (nHeight_getAncestor hm ha).1
        rw [ih _ hskip (mem_getAncestor hm ha) hsk (by omega)]
        exact getAncestor_getAncestor hm ha (by omega)
      · obtain ⟨prev, hp, hpr⟩ := exists_pprev hm (by omega)
        rw [hp, Option.bind_some, ih (he - 1) (by omega) (tree.parent hm hp) (by omega)
          (by omega), getAncestor_pprev hm hp (by omega)]
    next hup =>
      obtain rfl : height = he := by omega
      rw [← hw]
      exact (getAncestor_self hm).symm

theorem skipAncestor_eq (hsk : SkipsRight tree pskip) (hm : tree.Mem index) (height : Int) :
    skipAncestor pskip index height = index.getAncestor height := by
  have hh := nHeight_eq hm
  rw [skipAncestor]
  split
  next hout => rw [getAncestor, if_pos hout]
  · rw [walkAncestor_eq hsk hm (by omega) (by omega), Int.toNat_of_nonneg (by omega)]

end BlockTree

namespace Inserted

variable {blocks : List CBlockIndex} {index : CBlockIndex}

theorem parent_mem (h : Inserted blocks) (hm : index ∈ blocks) {prev : CBlockIndex}
    (hpr : index.pprev = some prev) : prev ∈ blocks := by
  induction h with
  | nil => cases hm
  | insert _ _ hp ih =>
    rcases List.mem_cons.1 hm with rfl | hm
    · exact List.mem_cons_of_mem _ (hp prev hpr)
    · exact List.mem_cons_of_mem _ (ih hm)

theorem genesis_height (h : Inserted blocks) (hm : index ∈ blocks) :
    index.root.header.nHeight.toInt32.toInt = 0 := by
  obtain ⟨self, prevs⟩ := index
  induction prevs generalizing self with
  | nil =>
    induction h with
    | nil => cases hm
    | insert _ hg _ ih =>
      rcases List.mem_cons.1 hm with rfl | hm
      · simpa [nHeight] using hg rfl
      · exact ih hm
  | cons prev prevs ih =>
    rw [root, List.getLastD_cons]
    exact ih prev (h.parent_mem hm rfl)

/-- The tree of the inserted blocks. -/
def tree (h : Inserted blocks) : BlockTree where
  Mem index := index ∈ blocks
  genesis := h.genesis_height
  parent hmem := h.parent_mem hmem

/-- An insertion keeps the skip pointers right: the walk of `BuildSkip` starts at the parent. -/
theorem skipsRight (h : Inserted blocks) : BlockTree.SkipsRight h.tree (skipsBuilt blocks) := by
  induction h with
  | nil => exact fun hm => nomatch hm
  | @insert blocks new hb hg hpa ih =>
    intro index hm hpo
    change buildSkip (skipsBuilt blocks) new index = _
    by_cases heq : index = new
    · subst heq
      obtain ⟨prev, hp, -⟩ := BlockTree.exists_pprev hm hpo
      rw [buildSkip, Function.update_self, hp, Option.bind_some,
        BlockTree.skipAncestor_eq ih (hpa prev hp)]
      refine BlockTree.getAncestor_pprev hm hp ?_
      have hlt := getSkipHeight_lt (by omega : 0 < index.nHeight.toNat)
      omega
    · rw [buildSkip, Function.update_of_ne heq]
      exact ih ((List.mem_cons.1 hm).resolve_left heq) hpo

theorem iterate_pprev (k : Nat) : (fun i : Option CBlockIndex => i.bind pprev)^[k] (some index) =
      match index.chain.drop k with
      | [] => none
      | self :: prevs => some ⟨self, prevs⟩ := by
  obtain ⟨self, prevs⟩ := index
  induction k generalizing self prevs with
  | zero => rfl
  | succ k ih =>
    rw [Function.iterate_succ_apply]
    cases prevs with
    | nil => exact (Function.iterate_fixed (x := none) rfl k).trans (by simp [CBlockIndex.chain])
    | cons prev prevs => exact ih prev prevs

/-- `GetAncestor` finds the block that the parents lead to, over whatever skip pointers the insertions
have set. -/
theorem skipAncestor_spec (h : Inserted blocks) (hmem : index ∈ blocks) (height : Int) :
    (height < 0 ∨ index.nHeight < height → skipAncestor (skipsBuilt blocks) index height = none) ∧
      (0 ≤ height → height ≤ index.nHeight → ∃ anc : CBlockIndex, anc.nHeight = height ∧
        skipAncestor (skipsBuilt blocks) index height = some anc ∧
        (fun i : Option CBlockIndex => i.bind pprev)^[(index.nHeight - height).toNat] (some index) =
          some anc) := by
  rw [@BlockTree.skipAncestor_eq h.tree index _ h.skipsRight hmem]
  constructor
  · intro hout
    rw [getAncestor, if_pos (by omega)]
  · intro hp hle
    obtain ⟨anc, ha⟩ := @BlockTree.exists_getAncestor h.tree index hmem height hp hle
    refine ⟨anc, (@BlockTree.nHeight_getAncestor h.tree index anc hmem height ha).1, ha, ?_⟩
    rw [← ha, iterate_pprev]
    exact (if_neg (by omega)).symm

def sampleBlock (n : Nat) : CBlockIndex :=
  ⟨⟨mainGenesis, n⟩, (List.range n).reverse.map fun k => ⟨mainGenesis, k⟩⟩

theorem inserted_sampleBlocks (n : Nat) : Inserted ((List.range n).reverse.map sampleBlock) := by
  induction n with
  | zero => exact .nil
  | succ n ih =>
    rw [List.range_succ, List.reverse_concat]
    refine .insert ih ?_ ?_
    · cases n with
      | zero => exact fun _ => by decide
      | succ n => simp [pprev, sampleBlock, List.range_succ]
    · cases n with
      | zero => nofun
      | succ n => simp [pprev, sampleBlock, List.range_succ]

/-- From height 6 the way to height 1 leads over the parent and then over its skip pointer. -/
theorem skipAncestor_spec_sampleBlock :
    let pskip := skipsBuilt ((List.range 7).reverse.map sampleBlock)
    pskip (sampleBlock 5) = some (sampleBlock 1) ∧
      ∃ anc : CBlockIndex, anc.nHeight = 1 ∧ skipAncestor pskip (sampleBlock 6) 1 = some anc := by
  have h := inserted_sampleBlocks 7
  obtain ⟨anc, hh, ha, -⟩ := (h.skipAncestor_spec List.mem_cons_self 1).2 (by decide) (by decide)
  refine ⟨?_, anc, hh, ha⟩
  exact (h.skipsRight (List.mem_cons_of_mem _ List.mem_cons_self) (by decide)).trans (by decide)

end Inserted

section Median

variable {l : List Int} {m : Int} {k : Nat}

/-- A place in the sorted list holds at least `m` exactly when no more elements than that are below it. -/
theorem le_mergeSort_iff (hk : k < l.length) : m ≤ l.mergeSort.getD k 0 ↔ l.countP (· < m) ≤ k := by
  have hso : l.mergeSort.Pairwise (· ≤ ·) := List.pairwise_mergeSort' (· ≤ ·) l
  rw [← List.length_mergeSort l] at hk
  rw [← (List.mergeSort_perm l fun a b => decide (a ≤ b)).countP_eq]
  generalize l.mergeSort = s at hso hk
  have hsp : s = s.take k ++ s[k] :: s.drop (k + 1) := by
    rw [← List.drop_eq_getElem_cons hk, List.take_append_drop]
  have hl : (s.take k).length = k := List.length_take_of_le hk.le
  rw [hsp, List.pairwise_append, List.pairwise_cons] at hso
  obtain ⟨-, ⟨ha, -⟩, hb⟩ := hso
  have hc : s.countP (· < m) =
      (s.take k).countP (· < m) + (s[k] :: s.drop (k + 1)).countP (· < m) := by
    rw [← List.countP_append, ← hsp]
  rw [List.getD_eq_getElem _ _ hk, hc]
  constructor
  · intro hm
    have hn : (s[k] :: s.drop (k + 1)).countP (· < m) = 0 := by
      rw [List.countP_eq_zero]
      intro x hx
      have hle : s[k] ≤ x := by
        rcases List.mem_cons.1 hx with rfl | hx
        · exact le_rfl
        · exact ha x hx
      simpa using hm.trans hle
    rw [hn, Nat.add_zero]
    exact List.countP_le_length.trans hl.le
  · intro hc
    by_contra hlt
    rw [not_le] at hlt
    have hal : (s.take k).countP (· < m) = (s.take k).length := by
      rw [List.countP_eq_length]
      intro x hx
      exact decide_eq_true ((hb x hx _ List.mem_cons_self).trans_lt hlt)
    have hse : 0 < (s[k] :: s.drop (k + 1)).countP (· < m) :=
      List.countP_pos_iff.2 ⟨s[k], List.mem_cons_self, decide_eq_true hlt⟩
    omega

end Median

/-- Every block of the chain but the lowest one is later than the median at its parent. -/
def TimesAdvance (index : CBlockIndex) : Prop :=
  ∀ (k : Nat) (block prev : CBlockIndex), index.chain.drop k = block.chain → block.pprev = some prev →
    prev.getMedianTimePast < block.getBlockTime

variable {index prev low high : CBlockIndex} {m : Int}

theorem le_getMedianTimePast_iff : m ≤ index.getMedianTimePast ↔
      index.recentTimes.countP (· < m) ≤ min index.chain.length nMedianTimeSpan / 2 := by
  have hl : index.recentTimes.length = min index.chain.length nMedianTimeSpan := by
    rw [recentTimes, List.length_map, List.length_take, min_comm]
  have hp : 0 < index.chain.length := by simp [CBlockIndex.chain]
  rw [getMedianTimePast, List.length_mergeSort, hl, le_mergeSort_iff]
  rw [hl, nMedianTimeSpan]
  omega

/-- One block later the median is not earlier: the new time is above it, and a time that leaves the
window was at best below it. -/
theorem getMedianTimePast_le_of_pprev (hp : index.pprev = some prev)
    (ht : prev.getMedianTimePast < index.self.header.getBlockTime) :
    prev.getMedianTimePast ≤ index.getMedianTimePast := by
  have hc : index.chain = index.self :: prev.chain := by
    obtain ⟨self, _ | ⟨_, prevs⟩⟩ := index
    · cases hp
    · cases hp
      rfl
  have hb := le_getMedianTimePast_iff.1 (le_refl prev.getMedianTimePast)
  rw [le_getMedianTimePast_iff]
  generalize prev.getMedianTimePast = m at ht hb ⊢
  calc index.recentTimes.countP (· < m)
      = ((prev.chain.take 10).map fun r => r.header.getBlockTime).countP (· < m) := by
        rw [recentTimes, hc, nMedianTimeSpan, List.take_succ_cons, List.map_cons]
        exact List.countP_cons_of_neg (by simpa using ht.le)
    _ ≤ prev.recentTimes.countP (· < m) :=
        ((List.take_sublist_take_left (by decide)).map _).countP_le
    _ ≤ min prev.chain.length nMedianTimeSpan / 2 := hb
    _ ≤ min index.chain.length nMedianTimeSpan / 2 := by
        rw [hc, List.length_cons]
        omega

/-- The median never goes back along a chain whose times advance. -/
theorem getMedianTimePast_mono (h : TimesAdvance index) {i j : Nat} (hij : i ≤ j)
    (hhigh : index.chain.drop i = high.chain) (hlow : index.chain.drop j = low.chain) :
    low.getMedianTimePast ≤ high.getMedianTimePast := by
  induction j, hij using Nat.le_induction generalizing low with
  | base =>
    obtain rfl : low = high := by
      cases low
      cases high
      simpa [CBlockIndex.chain] using hlow.symm.trans hhigh
    exact le_rfl
  | succ j _ ih =>
    have hc : ∃ child : CBlockIndex, index.chain.drop j = child.chain ∧ child.pprev = some low := by
      cases hd : index.chain.drop j with
      | nil =>
        rw [← List.drop_drop, hd] at hlow
        cases hlow
      | cons self prevs =>
        refine ⟨⟨self, prevs⟩, rfl, ?_⟩
        rw [← List.drop_drop, hd, List.drop_one, List.tail_cons] at hlow
        rw [hlow]
        rfl
    obtain ⟨child, hd, hp⟩ := hc
    exact (getMedianTimePast_le_of_pprev hp (h j child low hd hp)).trans (ih hd)

/-- A block one second after the genesis block. -/
def secondBlock : CBlockIndex :=
  ⟨⟨{ mainGenesis with nTime := mainGenesis.nTime + 1 }, 1⟩, [⟨mainGenesis, 0⟩]⟩

theorem getMedianTimePast_mono_secondBlock :
    getMedianTimePast ⟨⟨mainGenesis, 0⟩, []⟩ ≤ secondBlock.getMedianTimePast := by
  have ha : TimesAdvance secondBlock := by
    rintro (_ | _ | k) ⟨self, prevs⟩ prev hd hp
    · cases hd
      cases hp
      have hme := getMedianTimePast_mem ⟨⟨mainGenesis, 0⟩, []⟩
      have hm := List.mem_singleton.1 hme
      rw [hm]
      decide
    · cases hd
      cases hp
    · simp [secondBlock, CBlockIndex.chain] at hd
  exact getMedianTimePast_mono ha (Nat.zero_le 1) rfl rfl

end Cmusic
