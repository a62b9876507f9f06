import Cmusic.BlockTree

/-! The states of a deployment along the branches of a block tree, and since when they hold. -/
namespace Cmusic

open BlockTree

section Model

variable (params : DeploymentParams) (pos : DeploymentPos)

/-- The loop of `GetStateSinceHeightFor`: back over the periods that are in the same state. -/
def walkSince (initialState : ThresholdState) (index : CBlockIndex)
    (cache : ThresholdConditionCache) : Int × ThresholdConditionCache :=
  match hprev : previousPeriod params pos index with
  | none => (index.nHeight + 1, cache)
  | some previousPeriodParent =>
    let found := getStateFor params pos (some previousPeriodParent) cache
    if found.1 = initialState then walkSince initialState previousPeriodParent found.2
    else (index.nHeight + 1, found.2)
  termination_by index.prevs.length
  decreasing_by exact prevs_length_of_previousPeriod params pos hprev

end Model

/-- A block of the tree, or the place before the genesis blocks. -/
def BlockTree.Has (tree : BlockTree) (index? : Option CBlockIndex) : Prop :=
  ∀ index, index? = some index → tree.Mem index

section States

variable {params : DeploymentParams} {pos : DeploymentPos} {tree : BlockTree} {index : CBlockIndex}
  {height : Int} {n : Nat} {indexPrev? : Option CBlockIndex} {cache : ThresholdConditionCache}

/-- Every question leaves a cache that agrees with the chains. -/
theorem Coherent.walkSince (h : Coherent params pos cache) (initialState : ThresholdState)
    (index : CBlockIndex) :
    Coherent params pos (walkSince params pos initialState index cache).2 := by
  fun_induction Cmusic.walkSince params pos initialState index cache with
  | case1 => exact h
  | case2 index cache prev hp found hsa ih => exact ih (h.getStateFor _).2
  | case3 index cache prev hp found ho => exact (h.getStateFor _).2

end States

end Cmusic
