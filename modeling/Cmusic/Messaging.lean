import Cmusic.Lib.Lru
import Cmusic.AssetsCache
import Cmusic.TxAssets

/-! The message channels a node follows and the addresses it has seen, and what an output that is
added to the coins does to them. -/
namespace Cmusic

/-- The two tables of the channel database that lookups read. -/
structure CMessageChannelDB where
  myMessageChannels : Finset Str := ∅
  seenAddresses : Finset Str := ∅

/-- The globals of the messaging code. A pointer that is null is `none`. -/
@[ext] structure MessagingState where
  fMessaging : Bool
  pMessageSubscribedChannelsCache : Option (Lru Str Int)
  pMessagesSeenAddressCache : Option (Lru Str Int)
  pmessagechanneldb : Option CMessageChannelDB
  setDirtyChannelsAdd : Finset Str := ∅
  setDirtyChannelsRemove : Finset Str := ∅
  setSubscribedChannelsAskedForFalse : Finset Str := ∅
  setDirtySeenAddressAdd : Finset Str := ∅
  setAddressAskedForFalse : Finset Str := ∅

/-- How a lookup ends: answered from memory, or by the database. -/
inductive Lookup where
  | known (answer : Bool)
  | stored
  | absent
  deriving DecidableEq

/-- The order in which the layers are asked. -/
def lookup (added removed askedForFalse stored : Finset Str) (cache : Lru Str Int) (name : Str) :
    Lookup :=
  if name ∈ added then .known true
  else if name ∈ removed then .known false
  else if (cache.find? name).isSome then .known true
  else if name ∈ askedForFalse then .known false
  else if name ∈ stored then .stored
  else .absent

namespace MessagingState

variable (m : MessagingState)

/-- Without the cache or the database nothing is subscribed. -/
def channelLookup (name : Str) : Lookup :=
  match m.pMessageSubscribedChannelsCache, m.pmessagechanneldb with
  | some cache, some db =>
    lookup m.setDirtyChannelsAdd m.setDirtyChannelsRemove m.setSubscribedChannelsAskedForFalse
      db.myMessageChannels cache name
  | _, _ => .known false

/-- `IsChannelSubscribed`: the answer, and the globals with what the lookup remembers. -/
def isChannelSubscribed (name : Str) : Bool × MessagingState :=
  match m.channelLookup name with
  | .known answer => (answer, m)
  | .stored => (true, { m with
      pMessageSubscribedChannelsCache := m.pMessageSubscribedChannelsCache.map (·.put name 1) })
  | .absent => (false, { m with
      setSubscribedChannelsAskedForFalse := insert name m.setSubscribedChannelsAskedForFalse })

/-- A seen address is never removed, so this lookup has one layer less. -/
def addressLookup (address : Str) : Lookup :=
  match m.pMessagesSeenAddressCache, m.pmessagechanneldb with
  | some cache, some db =>
    lookup m.setDirtySeenAddressAdd ∅ m.setAddressAskedForFalse db.seenAddresses cache address
  | _, _ => .known false

def isAddressSeen (address : Str) : Bool × MessagingState :=
  match m.addressLookup address with
  | .known answer => (answer, m)
  | .stored => (true, { m with
      pMessagesSeenAddressCache := m.pMessagesSeenAddressCache.map (·.put address 1) })
  | .absent => (false, { m with
      setAddressAskedForFalse := insert address m.setAddressAskedForFalse })

def addChannel (name : Str) : MessagingState :=
  { m with
    setDirtyChannelsAdd := insert name m.setDirtyChannelsAdd
    setDirtyChannelsRemove := m.setDirtyChannelsRemove.erase name
    setSubscribedChannelsAskedForFalse := m.setSubscribedChannelsAskedForFalse.erase name }

/-- The address is taken out of the set of channels asked for, not out of the one of addresses. -/
def addAddressSeen (address : Str) : MessagingState :=
  { m with
    setDirtySeenAddressAdd := insert address m.setDirtySeenAddressAdd
    setSubscribedChannelsAskedForFalse := m.setSubscribedChannelsAskedForFalse.erase address }

end MessagingState

/-- What an output asks of the messaging code. -/
inductive MessagingRequest where
  /-- A channel to be subscribed, and an address that is now seen. -/
  | subscribe (channel address : Str)
  /-- The same, unless the channel is subscribed or the address was seen before. -/
  | follow (channel address : Str)
  /-- A channel to be subscribed if the one of its parent is. -/
  | watch (parent channel : Str)
  deriving DecidableEq

/-- The request of an output, where `isMine` tells the outputs that the first wallet can spend. -/
def messagingRequest (env : Env) (isMine : CTxOut → Bool) (txout : CTxOut) :
    Option MessagingRequest :=
  match getAssetData env txout.scriptPubKey with
  | none => none
  | some data =>
    let aType := CTransaction.nameTypeOrInvalid data.assetName
    if data.type = .transferAsset && data.nAmount > 0 then
      if isMine txout then
        match aType with
        | .root | .sub => some (.follow (getParentName data.assetName ++ ownerTag) data.address)
        | .owner | .msgChannel => some (.subscribe data.assetName data.address)
        | _ => none
      else none
    else if data.type = .newAsset then
      if isMine txout then
        match aType with
        | .root | .sub => some (.subscribe (data.assetName ++ ownerTag) data.address)
        | .owner | .msgChannel => some (.subscribe data.assetName data.address)
        | _ => none
      else if aType = .msgChannel then
        some (.watch (getParentName data.assetName ++ ownerTag) data.assetName)
      else none
    else none

namespace MessagingState

variable (m : MessagingState)

def handle : MessagingRequest → MessagingState
  | .subscribe channel address => (m.addChannel channel).addAddressSeen address
  | .follow channel address =>
    let (subscribed, m) := m.isChannelSubscribed channel
    if subscribed then m
    else
      let (seen, m) := m.isAddressSeen address
      if seen then m else (m.addChannel channel).addAddressSeen address
  | .watch parent channel =>
    let (subscribed, m) := m.isChannelSubscribed parent
    if subscribed then m.addChannel channel else m

/-- The messaging part of `AddCoins` for one output; without a wallet it does nothing. -/
def noteOutput (env : Env) (wallet : Option (CTxOut → Bool)) (txout : CTxOut) : MessagingState :=
  if env.areAssetsDeployed && m.fMessaging && m.pMessageSubscribedChannelsCache.isSome then
    match wallet.bind fun isMine => messagingRequest env isMine txout with
    | none => m
    | some request => m.handle request
  else m

/-- The globals without the caches that lookups fill: the rows that were read from the database, and
the names that were asked for in vain. -/
def withoutReadCaches : MessagingState :=
  { m with
    pMessageSubscribedChannelsCache := none
    pMessagesSeenAddressCache := none
    setSubscribedChannelsAskedForFalse := ∅
    setAddressAskedForFalse := ∅ }

/-- The channel is to be written to the database already. -/
def ChannelPending (channel : Str) : Prop :=
  channel ∈ m.setDirtyChannelsAdd ∧ channel ∉ m.setDirtyChannelsRemove

/-- Nothing is left to do for the request. -/
def Settled : MessagingRequest → Prop
  | .subscribe channel address => m.ChannelPending channel ∧ address ∈ m.setDirtySeenAddressAdd
  | .follow channel address => (m.isChannelSubscribed channel).1 = false →
      (m.isAddressSeen address).1 = false →
      m.ChannelPending channel ∧ address ∈ m.setDirtySeenAddressAdd
  | .watch parent channel => (m.isChannelSubscribed parent).1 = true → m.ChannelPending channel

/-- The output concerns no wallet of a node that uses messages, or what it asks for is settled. -/
def QuietOutput (env : Env) (wallet : Option (CTxOut → Bool)) (txout : CTxOut) : Prop :=
  env.areAssetsDeployed = true → m.fMessaging = true →
    m.pMessageSubscribedChannelsCache.isSome = true → ∀ isMine, wallet = some isMine →
    ∀ request, messagingRequest env isMine txout = some request → m.Settled request

/-- Every output of a list is quiet when its turn comes. The outputs before it can then have changed
no more than the read caches. -/
def QuietOutputs (env : Env) (wallet : Option (CTxOut → Bool)) (m : MessagingState) :
    List CTxOut → Prop
  | [] => True
  | txout :: rest => m.QuietOutput env wallet txout ∧
      QuietOutputs env wallet (m.noteOutput env wallet txout) rest

variable {m} {channel address : Str}

/-- A lookup only fills read caches. -/
theorem isChannelSubscribed_withoutReadCaches (m : MessagingState) (channel : Str) :
    (m.isChannelSubscribed channel).2.withoutReadCaches = m.withoutReadCaches := by
  unfold isChannelSubscribed
  split <;> rfl

theorem isAddressSeen_withoutReadCaches (m : MessagingState) (address : Str) :
    (m.isAddressSeen address).2.withoutReadCaches = m.withoutReadCaches := by
  unfold isAddressSeen
  split <;> rfl

/-- The caches of channels are not those of addresses. -/
theorem isAddressSeen_isChannelSubscribed (m : MessagingState) (channel address : Str) :
    ((m.isChannelSubscribed channel).2.isAddressSeen address).1 = (m.isAddressSeen address).1 := by
  have hl : (m.isChannelSubscribed channel).2.addressLookup address = m.addressLookup address := by
    unfold isChannelSubscribed
    split <;> rfl
  simp only [isAddressSeen, hl]
  split <;> rfl

variable {m' : MessagingState}

theorem addChannel_iff (h : m'.withoutReadCaches = m.withoutReadCaches) :
    (m'.addChannel channel).withoutReadCaches = m.withoutReadCaches ↔ m.ChannelPending channel := by
  simp only [MessagingState.ext_iff, withoutReadCaches] at h
  simp [MessagingState.ext_iff, withoutReadCaches, addChannel, ChannelPending, h]

theorem subscribe_iff (h : m'.withoutReadCaches = m.withoutReadCaches) :
    ((m'.addChannel channel).addAddressSeen address).withoutReadCaches = m.withoutReadCaches ↔
      m.ChannelPending channel ∧ address ∈ m.setDirtySeenAddressAdd := by
  simp only [MessagingState.ext_iff, withoutReadCaches] at h
  simp [MessagingState.ext_iff, withoutReadCaches, addChannel, addAddressSeen, ChannelPending, h,
    and_assoc]

theorem handle_iff (request : MessagingRequest) :
    (m.handle request).withoutReadCaches = m.withoutReadCaches ↔ m.Settled request := by
  cases request with
  | subscribe channel address => exact subscribe_iff rfl
  | follow channel address =>
    have hc := isChannelSubscribed_withoutReadCaches m channel
    have ha := isAddressSeen_withoutReadCaches (m.isChannelSubscribed channel).2 address
    simp only [handle, Settled, ← isAddressSeen_isChannelSubscribed m channel address]
    split_ifs with hs ht
    · simp [hs, hc]
    · simp [ht, ha.trans hc]
    · simp [hs, ht, subscribe_iff (ha.trans hc)]
  | watch parent channel =>
    have hc := isChannelSubscribed_withoutReadCaches m parent
    simp only [handle, Settled]
    split_ifs with hs
    · simp [hs, addChannel_iff hc]
    · simp [hs, hc]

theorem noteOutput_iff {env : Env} {wallet : Option (CTxOut → Bool)} {txout : CTxOut} :
    (m.noteOutput env wallet txout).withoutReadCaches = m.withoutReadCaches ↔
      m.QuietOutput env wallet txout := by
  unfold noteOutput QuietOutput
  split_ifs with hon
  · simp only [Bool.and_eq_true] at hon
    obtain ⟨⟨ha, hm⟩, hc⟩ := hon
    cases wallet with
    | none => simp
    | some isMine =>
      cases hr : messagingRequest env isMine txout with
      | none => simp [hr]
      | some request => simp [hr, ha, hm, hc, handle_iff]
  · simp only [true_iff]
    intro ha hm hc
    simp [ha, hm, hc] at hon

end MessagingState

end Cmusic
