import Spora.Mining.Selectors

namespace Spora

open Outcome

namespace Addresses

inductive Prefix
  | mainnet
  | testnet
  | simnet
  | devnet
deriving DecidableEq, Repr

inductive Version
  | stdSingle
  | stdSingleECDSA
  | account
  | fullScript
deriving DecidableEq, Repr

def MAX_FULL_SCRIPT_ARGS_LEN : Nat := 10000

def HASH_TYPE_TYPE : Nat := 1

def encodeVarintFrom : Nat → Nat → Bytes
  | 0, _ => []
  | fuel + 1, value =>
    if value / 128 = 0 then [UInt8.ofNat value]
    else UInt8.ofNat (value % 128 + 128) :: encodeVarintFrom fuel (value / 128)

def encodeVarint (value : Nat) : Bytes := encodeVarintFrom 10 value

-- The value and the number of bytes read. A shift by the width of a word or more fails, one below
-- it drops the bits that leave the word.
def decodeVarintFrom (bytes : Bytes) (value shift index : Nat) : Bytes → Option (Nat × Nat)
  | [] => none
  | byte :: rest =>
    if 64 ≤ shift then none
    else
      let value := value ||| byte.toNat % 128 * 2 ^ shift % 2 ^ 64
      if byte.toNat < 128 then
        if encodeVarint value = bytes.take (index + 1) then some (value, index + 1) else none
      else if 64 < shift + 7 then none
      else decodeVarintFrom bytes value (shift + 7) (index + 1) rest

def decodeVarint (bytes : Bytes) : Option (Nat × Nat) := decodeVarintFrom bytes 0 0 0 bytes

def decodeFullScriptPayload (payload : Bytes) : Option Script :=
  if payload.length < 34 then none
  else
    let hashType := leNat ((payload.drop 32).take 1)
    if 4 < hashType then none
    else (decodeVarint (payload.drop 33)).bind fun (argsLen, varintBytes) =>
      let argsOffset := 33 + varintBytes
      if MAX_FULL_SCRIPT_ARGS_LEN < argsLen then none
      else if argsOffset + argsLen ≠ payload.length then none
      else some ⟨leNat (payload.take 32), hashType, payload.drop argsOffset⟩

-- The payloads `normalize_payload` accepts. That of a full script is decoded by the same rules
-- there.
def isValidPayload (version : Version) (payload : Bytes) : Bool :=
  match version with
  | .stdSingle => payload.length == 20
  | .stdSingleECDSA => payload.length == 20
  | .account => payload.length == 32
  | .fullScript => (decodeFullScriptPayload payload).isSome

end Addresses

open Addresses in
structure Address where
  prefix_ : Prefix
  version : Version
  payload : Bytes
  valid : isValidPayload version payload = true

structure BuiltinLocks where
  codeHash : Addresses.Version → Hash
  codeHash_lt : ∀ version, codeHash version < 256 ^ 32

def addressToLockScript (locks : BuiltinLocks) (address : Address) : Script :=
  match address.version with
  | .fullScript => (Addresses.decodeFullScriptPayload address.payload).getD ⟨0, 0, []⟩
  | version => ⟨locks.codeHash version, Addresses.HASH_TYPE_TYPE, address.payload⟩

structure VirtualStateApproxId where
  daaScore : Nat
  blueWork : Nat
  sink : Hash
deriving DecidableEq, Repr

def BlockTemplate.toVirtualStateApproxId (template : BlockTemplate) : VirtualStateApproxId :=
  ⟨template.block.header.daaScore, template.block.header.blueWork, template.selectedParentHash⟩

structure BlockTemplateCache where
  lastUpdateTime : Nat
  blockTemplate : Option BlockTemplate
  cacheLifetime : Nat

namespace BlockTemplateCache

variable (self : BlockTemplateCache)

def new (cacheLifetime : Nat) : BlockTemplateCache := ⟨0, none, cacheLifetime⟩

def lock (virtualStateApproxId : VirtualStateApproxId) : BlockTemplateCache :=
  if self.blockTemplate.any fun template =>
      template.toVirtualStateApproxId ≠ virtualStateApproxId then
    { self with blockTemplate := none }
  else self

def getImmutableCachedTemplate (now : Nat) : Option BlockTemplate :=
  if self.lastUpdateTime + self.cacheLifetime < now ∨ now < self.lastUpdateTime then none
  else self.blockTemplate

def setImmutableCachedTemplate (now : Nat) (template : BlockTemplate) : BlockTemplateCache :=
  { self with lastUpdateTime := now, blockTemplate := some template }

end BlockTemplateCache

inductive MiningManagerError
  | rule (error : RuleError)
  | coinbase (error : CoinbaseError)
deriving DecidableEq, Repr

-- What a request finds: the clock when the cache is read, when the template is made and when it is
-- stored, and the mempool in each attempt.
structure Moment where
  readTime : Nat
  unixNow : Nat
  storeTime : Nat
  pools : Nat → TransactionsPool
  draws : Nat → TemplateDraws

namespace MiningManager

variable (self : MiningManager)

def templateServices : TemplateServices :=
  { self.services with hasher := self.processor.storage.hasher }

def virtualStateApproxId (virtualState : VirtualState self.processor.storage.hasher) :
    VirtualStateApproxId :=
  ⟨virtualState.daaScore, self.templateServices.blueWork virtualState.ghostdagData,
    virtualState.ghostdagData.selectedParent⟩

-- `get_block_template` with its cache: a live template is handed out or adapted, otherwise one is
-- built.
def getCachedBlockTemplate (virtualState : VirtualState self.processor.storage.hasher)
    (cache : BlockTemplateCache) (minerData : MinerData) (moment : Moment) :
    Except MiningManagerError BlockTemplate × BlockTemplateCache :=
  let cache := cache.lock (self.virtualStateApproxId virtualState)
  match cache.getImmutableCachedTemplate moment.readTime with
  | some template =>
    if template.minerData = minerData then (.ok template, cache)
    else ((self.templateServices.modifyBlockTemplate minerData template moment.unixNow).mapError
      .coinbase, cache)
  | none =>
    match self.getBlockTemplate virtualState minerData moment.unixNow moment.pools moment.draws with
    | .ok template => (.ok template, cache.setImmutableCachedTemplate moment.storeTime template)
    | .error error => (.error (.rule error), cache)

end MiningManager

inductive RpcError
  | invalidPrefix (prefix_ : Addresses.Prefix)
  | mining (error : MiningManagerError)
  | coinbasePayloadLengthAboveMax (max : Nat)
deriving DecidableEq, Repr

-- The `panicked` errors of the model stand for aborts.
def RpcError.isPanic : RpcError → Bool
  | .mining (.rule (.panicked _)) => true
  | .mining (.coinbase .panicked) => true
  | _ => false

structure GetBlockTemplateRequest where
  payAddress : Address
  extraData : Bytes

structure RpcCoreService where
  miningManager : MiningManager
  locks : BuiltinLocks
  version : Bytes
  prefix_ : Addresses.Prefix

namespace RpcCoreService

variable (self : RpcCoreService)

def virtualHasher : Hasher := self.miningManager.processor.storage.hasher

def minerDataOf (request : GetBlockTemplateRequest) : MinerData :=
  ⟨addressToLockScript self.locks request.payAddress, self.version ++ 0x2f :: request.extraData⟩

-- The limit of the configuration is the one the coinbase manager was made with.
def maxCoinbasePayloadLen : Nat :=
  self.miningManager.templateServices.coinbaseManager.maxCoinbasePayloadLen

def getBlockTemplateCall (virtualState : VirtualState self.virtualHasher)
    (cache : BlockTemplateCache) (moment : Moment) (request : GetBlockTemplateRequest) :
    Except RpcError BlockTemplate × BlockTemplateCache :=
  if request.payAddress.prefix_ ≠ self.prefix_ then
    (.error (.invalidPrefix request.payAddress.prefix_), cache)
  else
    match self.miningManager.getCachedBlockTemplate virtualState cache (self.minerDataOf request)
        moment with
    | (.error error, cache) => (.error (.mining error), cache)
    | (.ok template, cache) =>
      let payload := template.block.transactions.head?.bind CellTx.payload
      if self.maxCoinbasePayloadLen < payload.elim 0 List.length then
        (.error (.coinbasePayloadLengthAboveMax self.maxCoinbasePayloadLen), cache)
      else (.ok template, cache)

def serve (virtualState : VirtualState self.virtualHasher) :
    BlockTemplateCache → List (Moment × GetBlockTemplateRequest) →
      List (Except RpcError BlockTemplate)
  | _, [] => []
  | cache, (moment, request) :: rest =>
    let answer := self.getBlockTemplateCall virtualState cache moment request
    answer.1 :: serve virtualState answer.2 rest

end RpcCoreService

end Spora
