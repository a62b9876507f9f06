import Cmusic.AssetStore
import Cmusic.Conservation
import Cmusic.Lib.PlainMap

/-! Runs of the cache of a block over the global one: operations, flushes, dumps and lookups. -/
namespace Cmusic

open Std

/-- The type a command for an address has, by its flag. -/
def freezeType (fFreeze : Bool) : RestrictedType :=
  if fFreeze then .freezeAddress else .unfreezeAddress

def globalFreezeType (fFreeze : Bool) : RestrictedType :=
  if fFreeze then .globalFreeze else .globalUnfreeze

def qualifierType (fAdd : Bool) : QualifierType := if fAdd then .addQualifier else .removeQualifier

/-- One call on the cache of a block, or on what lies below it. A new cache is the one the next
block gets. -/
inductive CacheEvent where
  | addRestrictedAddress (assetName address : Str) (fFreeze : Bool)
  | removeRestrictedAddress (assetName address : Str) (fFreeze : Bool)
  | addGlobalRestricted (assetName : Str) (fFreeze : Bool)
  | removeGlobalRestricted (assetName : Str) (fFreeze : Bool)
  | addQualifierAddress (assetName address : Str) (fAdd : Bool)
  | removeQualifierAddress (assetName address : Str) (fAdd : Bool)
  | addRestrictedVerifier (assetName verifier : Str)
  | removeRestrictedVerifier (assetName verifier : Str) (fUndoingReissue : Bool)
  | flush
  | newCache
  | dumpCacheToDatabase (unset : Int)
  | checkForAddressRestriction (restrictedName address : Str) (fSkipTempCache : Bool)
  | checkForGlobalRestriction (restrictedName : Str) (fSkipTempCache : Bool)
  | checkForAddressQualifier (qualifierName address : Str) (fSkipTempCache : Bool)
  | getAssetVerifierStringIfExists (name : Str) (fSkipTempCache : Bool)

structure CacheState where
  cache : CAssetsCache := {}
  store : AssetStore

variable (env : Env)

def CacheState.step (st : CacheState) : CacheEvent → CacheState
  | .addRestrictedAddress assetName address fFreeze =>
    { st with cache := st.cache.addRestrictedAddress assetName address (freezeType fFreeze) }
  | .removeRestrictedAddress assetName address fFreeze =>
    { st with cache := st.cache.removeRestrictedAddress assetName address (freezeType fFreeze) }
  | .addGlobalRestricted assetName fFreeze =>
    { st with cache := st.cache.addGlobalRestricted assetName (globalFreezeType fFreeze) }
  | .removeGlobalRestricted assetName fFreeze =>
    { st with cache := st.cache.removeGlobalRestricted assetName (globalFreezeType fFreeze) }
  | .addQualifierAddress assetName address fAdd =>
    { st with cache := st.cache.addQualifierAddress assetName address (qualifierType fAdd) }
  | .removeQualifierAddress assetName address fAdd =>
    { st with cache := st.cache.removeQualifierAddress assetName address (qualifierType fAdd) }
  | .addRestrictedVerifier assetName verifier =>
    { st with cache := st.cache.addRestrictedVerifier assetName verifier }
  | .removeRestrictedVerifier assetName verifier fUndoingReissue =>
    { st with cache := st.cache.removeRestrictedVerifier assetName verifier fUndoingReissue }
  | .flush => { st with store := { st.store with passets := st.cache.flush st.store.passets } }
  | .newCache => { st with cache := {} }
  | .dumpCacheToDatabase unset => { st with store := st.store.dumpCacheToDatabase env unset }
  | .checkForAddressRestriction restrictedName address fSkipTempCache =>
    { st with store :=
        (st.store.checkForAddressRestriction env st.cache restrictedName address fSkipTempCache).2 }
  | .checkForGlobalRestriction restrictedName fSkipTempCache =>
    { st with store :=
        (st.store.checkForGlobalRestriction st.cache restrictedName fSkipTempCache).2 }
  | .checkForAddressQualifier qualifierName address fSkipTempCache =>
    { st with store :=
        (st.store.checkForAddressQualifier env st.cache qualifierName address fSkipTempCache).2 }
  | .getAssetVerifierStringIfExists name fSkipTempCache =>
    { st with store := (st.store.getAssetVerifierStringIfExists st.cache name fSkipTempCache).2 }

/-- The capacities of the caches of the rows. -/
structure CacheSizes where
  assets : Nat
  verifiers : Nat
  qualifiers : Nat
  restrictions : Nat
  globalRestrictions : Nat

/-- Empty caches over empty databases. -/
def CacheState.initial (sizes : CacheSizes) : CacheState where
  store := {
    assetData := { cache := { maxSize := sizes.assets } }
    verifier := { cache := { maxSize := sizes.verifiers } }
    addressQualifier := { cache := { maxSize := sizes.qualifiers } }
    restrictedAddress := { cache := { maxSize := sizes.restrictions } }
    globalRestriction := { cache := { maxSize := sizes.globalRestrictions } } }

def CacheState.run (sizes : CacheSizes) (events : List CacheEvent) : CacheState :=
  events.foldl (CacheState.step env) (CacheState.initial sizes)

/-- The regtest network with hashes that are the texts themselves. -/
def plainEnv : Env := { sampleEnv with hash256 := id }

/-- Caches of one row each. -/
def smallSizes : CacheSizes := ⟨1, 1, 1, 1, 1⟩

end Cmusic
