import Cmusic.Basic

/-! Coins and the cached view of the unspent outputs. -/
namespace Cmusic

open Std

structure Coin where
  out : CTxOut
  nHeight : Nat
  fCoinBase : Bool
  deriving DecidableEq

namespace Coin

/-- A spent coin holds the null output, whose value is -1. -/
def cleared : Coin := ⟨⟨-1, []⟩, 0, false⟩

def isSpent (coin : Coin) : Bool := coin.out.nValue = -1

end Coin

structure CCoinsCacheEntry where
  coin : Coin
  dirty : Bool
  fresh : Bool
  deriving DecidableEq

/-- A cache over a parent view; `base` is what the parent answers. -/
structure CCoinsViewCache where
  base : TreeMap COutPoint Coin
  cacheCoins : TreeMap COutPoint CCoinsCacheEntry := ∅

namespace CCoinsViewCache

variable (view : CCoinsViewCache) (outpoint : COutPoint)

/-- The coin of the parent view; a view never returns a spent one. -/
def baseCoin : Option Coin := view.base[outpoint]?.filter fun coin => !coin.isSpent

/-- The cached entry, or the one `FetchCoin` creates for a coin of the parent. -/
def findEntry : Option CCoinsCacheEntry :=
  view.cacheCoins[outpoint]? <|> (view.baseCoin outpoint).map fun coin => ⟨coin, false, false⟩

def getCoin : Option Coin :=
  ((view.findEntry outpoint).map CCoinsCacheEntry.coin).filter fun coin => !coin.isSpent

def haveCoin : Bool := (view.getCoin outpoint).isSome

def haveInputs (tx : CTransaction) : Bool :=
  tx.isCoinBase || tx.vin.all fun txin => view.haveCoin txin.prevout

/-- The entry `AddCoin` starts from; a new one holds a spent coin and no flags. -/
def entryOrEmpty : CCoinsCacheEntry :=
  view.cacheCoins[outpoint]?.getD ⟨Coin.cleared, false, false⟩

/-- `AddCoin` for a spendable coin; `none` stands for the exception on a replaced unspent entry. -/
def addSpendable (coin : Coin) (possibleOverwrite : Bool) : Option CCoinsViewCache :=
  let entry := view.entryOrEmpty outpoint
  if !possibleOverwrite && !entry.coin.isSpent then none
  else
    let fresh := entry.fresh || (!possibleOverwrite && !entry.dirty)
    some { view with cacheCoins := view.cacheCoins.insert outpoint ⟨coin, true, fresh⟩ }

/-- `SpendCoin` on the view alone: the coin that was there, and the view without it. -/
def spendEntry : Option (Coin × CCoinsViewCache) :=
  match view.findEntry outpoint with
  | none => none
  | some entry =>
    if entry.fresh then
      some (entry.coin, { view with cacheCoins := view.cacheCoins.erase outpoint })
    else
      some (entry.coin,
        { view with cacheCoins := view.cacheCoins.insert outpoint ⟨Coin.cleared, true, false⟩ })

/-- What `Flush` leaves in the parent: the dirty entries written over it. -/
def flush : TreeMap COutPoint Coin :=
  view.cacheCoins.foldl (fun base outpoint entry =>
    if entry.dirty then
      if entry.coin.isSpent then base.erase outpoint else base.insert outpoint entry.coin
    else base) view.base

end CCoinsViewCache

end Cmusic
