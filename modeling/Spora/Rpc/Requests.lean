import Spora.Mining.Limits
import Spora.Rpc.Template

namespace Spora

open Std Outcome Option BlockTemplateCache MiningManager TemplateServices List

def Script.Encodable (script : Script) : Prop := Fits 32 script.codeHash ∧ Fits 1 script.hashType

theorem encodable_decodeFullScriptPayload {payload script}
    (h : Addresses.decodeFullScriptPayload payload = some script) : script.Encodable := by
  unfold Addresses.decodeFullScriptPayload at h
  dsimp only at h
  split_ifs at h with hs ht
  obtain ⟨⟨argsLen, varintBytes⟩, -, h⟩ := bind_eq_some_iff.mp h
  split_ifs at h
  cases h
  refine ⟨?_, ?_⟩
  · have hc := fits_leNat (payload.take 32)
    rw [length_take, Nat.min_eq_left (by omega)] at hc
    exact hc
  · change leNat ((payload.drop 32).take 1) < 256 ^ 1
    omega

theorem encodable_addressToLockScript (locks addr) :
    (addressToLockScript locks addr).Encodable := by
  have hb version : (⟨locks.codeHash version, Addresses.HASH_TYPE_TYPE,
      addr.payload⟩ : Script).Encodable :=
    ⟨locks.codeHash_lt version, by change 1 < 256 ^ 1; decide⟩
  obtain ⟨prefix_, version, payload, valid⟩ := addr
  unfold addressToLockScript
  cases version with
  | stdSingle => exact hb .stdSingle
  | stdSingleECDSA => exact hb .stdSingleECDSA
  | account => exact hb .account
  | fullScript =>
    obtain ⟨script, hs⟩ := isSome_iff_exists.mp valid
    rw [hs]
    exact encodable_decodeFullScriptPayload hs

namespace CoinbaseManager

variable {self : CoinbaseManager} {data : CoinbaseData} {payload : Bytes}

theorem deserialize_serialize (hmax : self.coinbasePayloadScriptPublicKeyMaxLen < 256)
    (hlock : data.minerData.lockScript.Encodable)
    (h : self.serializeCoinbasePayload data = .ok payload)
    (hlength : payload.length ≤ self.maxCoinbasePayloadLen) :
    ∃ parsed, self.deserializeCoinbasePayload payload = .ok parsed ∧
    parsed.minerData = data.minerData := by
  refine ⟨readBack data, ?_, ?_⟩
  · rw [deserialize_of_serialize hmax h, if_neg (Nat.not_lt.mpr hlength)]
  · obtain ⟨hc, ht⟩ := hlock
    rw [readBack, leNat_leBytes hc, leNat_leBytes ht]

end CoinbaseManager

namespace TemplateServices

open CoinbaseManager

variable {services : TemplateServices} {vs : VirtualState services.hasher} {m m' : MinerData}
  {txs : List CellTx} {calculatedFees : List Nat} {unixNow : Nat}

abbrev ArgsFit (services : TemplateServices) (m : MinerData) : Prop :=
  m.lockScript.args.length ≤ services.coinbaseManager.coinbasePayloadScriptPublicKeyMaxLen

structure Accepts (services : TemplateServices) (m : MinerData) : Prop where
  args : m.lockScript.args.length ≤ services.coinbaseManager.coinbasePayloadScriptPublicKeyMaxLen
  payload : payloadLength m ≤ services.coinbaseManager.maxCoinbasePayloadLen

theorem serialize_payloadFor (vs) (h : services.ArgsFit m) :
    services.coinbaseManager.serializeCoinbasePayload ⟨vs.ghostdagData.blueScore,
      services.coinbaseManager.calcBlockSubsidy vs.daaScore, 0, m⟩ =
    .ok (services.payloadFor vs m) := by
  unfold payloadFor
  rw [serializeCoinbasePayload_eq_ok_iff.mpr ⟨h, rfl⟩]
  rfl

theorem build_sameVerdict (h : services.ArgsFit m) (h' : services.ArgsFit m') :
    SameVerdict (services.buildBlockTemplateFromVirtualStateCell vs m txs calculatedFees unixNow)
    (services.buildBlockTemplateFromVirtualStateCell vs m' txs calculatedFees unixNow) := by
  refine .bind_of (.mapError (.bind fun outputs => .bind fun redReward => ?_) _) fun coinbase
      coinbase' =>
    .bind fun sp => .ok _ _
  rw [serialize_payloadFor vs h, serialize_payloadFor vs h']
  exact .ok _ _

theorem miner_of_build {template}
    (h : services.buildBlockTemplateFromVirtualStateCell vs m txs calculatedFees unixNow =
      .ok template) :
    template.minerData = m ∧ template.toVirtualStateApproxId =
    ⟨vs.daaScore, services.blueWork vs.ghostdagData, vs.ghostdagData.selectedParent⟩ := by
  obtain ⟨coinbase, -, h⟩ := bind_ok h
  obtain ⟨sp, -, h⟩ := bind_ok h
  cases h
  exact ⟨rfl, rfl⟩

def Pays (services : TemplateServices) (virtualState : VirtualState services.hasher) (m : MinerData)
    (template : BlockTemplate) : Prop :=
  ∃ coinbase ∈ template.block.transactions.head?,
    coinbase.payload = some (services.payloadFor virtualState m)

variable {outputs : List CellOutput} {redReward : Nat} {template adapted : BlockTemplate}

theorem pays_of_builtFor
    (h : services.BuiltFor vs m txs calculatedFees unixNow outputs redReward template) :
    services.Pays vs m template :=
  ⟨_, by rw [h.transactions]; rfl, payload_buildCoinbaseCellTx (serialize_ne_nil h.payload)⟩

theorem Accepts.length_payloadFor (h : services.Accepts m) :
    (services.payloadFor vs m).length = payloadLength m :=
  length_of_serialize (serialize_payloadFor vs h.args)

theorem modify_of_builtFor
    (hmax : services.coinbaseManager.coinbasePayloadScriptPublicKeyMaxLen < 256)
    (hlock : m.lockScript.Encodable) (haccepts : services.Accepts m)
    (hbuilt : services.BuiltFor vs m txs calculatedFees unixNow outputs redReward template)
    (now : Nat) :
    (∃ adapted, services.modifyBlockTemplate m' template now = .ok adapted ∧
      services.Pays vs m' adapted ∧ services.ArgsFit m') ∨
    services.modifyBlockTemplate m' template now = .error (.payloadLockScriptLenAboveMax
      m'.lockScript.args.length services.coinbaseManager.coinbasePayloadScriptPublicKeyMaxLen) ∧
    services.coinbaseManager.coinbasePayloadScriptPublicKeyMaxLen < m'.lockScript.args.length := by
  have hne := serialize_ne_nil hbuilt.payload
  unfold modifyBlockTemplate
  rw [hbuilt.transactions, head?_cons, okOr_some, ok_bind, payload_buildCoinbaseCellTx hne,
    getD_some]
  by_cases hargs : services.ArgsFit m'
  · left
    obtain ⟨parsed, hp, -⟩ := deserialize_serialize hmax hlock hbuilt.payload
      (haccepts.length_payloadFor.trans_le haccepts.payload)
    have hm : services.coinbaseManager.modifyCoinbasePayload (services.payloadFor vs m) m' =
        .ok (services.payloadFor vs m') := by
      have hs : services.coinbaseManager.modifyCoinbasePayload (services.payloadFor vs m) m' =
          services.coinbaseManager.serializeCoinbasePayload
            ⟨parsed.blueScore, parsed.subsidy, parsed.massCommitment, m'⟩ := by
        unfold modifyCoinbasePayload
        rw [if_neg (Nat.not_lt.mpr hargs)]
        rw [hp, ok_bind]
      have hnew : ∃ newPayload, services.coinbaseManager.serializeCoinbasePayload
          ⟨parsed.blueScore, parsed.subsidy, parsed.massCommitment, m'⟩ = .ok newPayload :=
        ⟨_, serializeCoinbasePayload_eq_ok_iff.mpr ⟨hargs, rfl⟩⟩
      obtain ⟨newPayload, hnew⟩ := hnew
      rw [hs, hnew, ← serialize_of_modify hmax hbuilt.payload (hs.trans hnew)]
      exact serialize_payloadFor vs hargs
    rw [hm]
    refine ⟨_, rfl, ⟨_, rfl, ?_⟩, hargs⟩
    have hne' := serialize_ne_nil (serialize_payloadFor vs hargs)
    rw [replacePayload_buildCoinbaseCellTx hne hne']
    by_cases hred : redReward > 0
    · rw [hbuilt.hasRedReward, decide_eq_true hred]
      exact payload_buildCoinbaseCellTx hne'
    · rw [hbuilt.hasRedReward, decide_eq_false hred]
      exact payload_buildCoinbaseCellTx hne'
  · right
    unfold modifyCoinbasePayload
    rw [if_pos (Nat.lt_of_not_le hargs)]
    exact ⟨rfl, Nat.lt_of_not_le hargs⟩

-- The stores hold what every template needs: the rewards of the merged blocks and the selected
-- parent.
structure Stocked (services : TemplateServices) (virtualState : VirtualState services.hasher) :
    Prop where
  blues : ∃ outputs, virtualState.ghostdagData.mergesetBlues.foldlM
    (blueOutputs virtualState.mergesetRewards virtualState.mergesetNonDaa) [] = .ok outputs
  reds : ∃ redReward, virtualState.ghostdagData.mergesetReds.foldlM
    (addRedReward virtualState.mergesetRewards virtualState.mergesetNonDaa) 0 = .ok redReward
  parent : (services.headers virtualState.ghostdagData.selectedParent).isSome = true

-- Enough are rewards for all merged blocks that sum up to a machine integer.
theorem Stocked.of_rewards
    (hparent : (services.headers vs.ghostdagData.selectedParent).isSome = true)
    (hdata : ∀ block ∈ vs.ghostdagData.mergesetBlues ++ vs.ghostdagData.mergesetReds,
      block ∈ vs.mergesetRewards)
    (hsum : ((vs.ghostdagData.mergesetBlues ++ vs.ghostdagData.mergesetReds).map
      (earned vs.mergesetRewards)).sum ≤ U64_MAX) : services.Stocked vs := by
  rw [map_append, sum_append] at hsum
  rw [forall_mem_append] at hdata
  exact ⟨(exists_rewards hdata.1 (by rw [Nat.zero_add]; omega) []).1,
    (exists_rewards hdata.2 (by omega) []).2, hparent⟩

theorem Stocked.build (h : services.Stocked vs) (hargs : services.ArgsFit m) :
    ∃ template, services.buildBlockTemplateFromVirtualStateCell vs m txs calculatedFees unixNow =
    .ok template := by
  obtain ⟨outputs, hb⟩ := h.blues
  obtain ⟨redReward, hr⟩ := h.reds
  obtain ⟨parent, hp⟩ := isSome_iff_exists.mp h.parent
  have hc : services.coinbaseManager.expectedCoinbaseTransaction vs.daaScore m
      vs.ghostdagData vs.mergesetRewards vs.mergesetNonDaa =
      .ok ⟨buildCoinbaseCellTx (withRedReward outputs redReward m.lockScript)
        (services.payloadFor vs m), redReward > 0⟩ := by
    unfold expectedCoinbaseTransaction
    rw [hb, hr, serialize_payloadFor vs hargs]
    rfl
  unfold buildBlockTemplateFromVirtualStateCell
  rw [hc]
  dsimp only
  rw [hp]
  exact ⟨_, rfl⟩

end TemplateServices

namespace MiningManager

variable {self : MiningManager} {vs : VirtualState self.processor.storage.hasher} {m m' : MinerData}
  {unixNow : Nat} {pools : Nat → TransactionsPool} {draws : Nat → TemplateDraws}

def attempted (self : MiningManager) (virtualState : VirtualState self.processor.storage.hasher)
    (pool : TransactionsPool) (draws : TemplateDraws) (buildMode : TemplateBuildMode) :
    Except RuleError TemplateValidationOutcome :=
  let accessSets :=
    self.selectedCellscriptSchedulerAccesses pool (self.selectTransactions pool draws)
  self.processor.templateTransactions
    ((self.selectTransactions pool draws).map FeerateTransactionKey.tx)
    (if accessSets.isEmpty then none else some accessSets) buildMode virtualState

theorem buildBlockTemplate_eq (pool draws mode) :
    self.buildBlockTemplate vs m unixNow pool draws mode =
    self.attempted vs pool draws mode >>= fun out =>
    self.templateServices.buildBlockTemplateFromVirtualStateCell vs m out.validTxs
    out.calculatedFees unixNow := rfl

section

variable (h : self.templateServices.ArgsFit m) (h' : self.templateServices.ArgsFit m')
include h h'

theorem buildBlockTemplate_sameVerdict (pool draws mode) :
    SameVerdict (self.buildBlockTemplate vs m unixNow pool draws mode)
    (self.buildBlockTemplate vs m' unixNow pool draws mode) := by
  exact .bind fun out => build_sameVerdict h h'

theorem getBlockTemplateFrom_sameVerdict (attempts left : Nat) :
    SameVerdict (self.getBlockTemplateFrom vs m unixNow pools draws attempts left)
    (self.getBlockTemplateFrom vs m' unixNow pools draws attempts left) := by
  induction left generalizing attempts with
  | zero => exact buildBlockTemplate_sameVerdict h h' _ _ _
  | succ left ih =>
    have hs : SameVerdict
        (self.buildBlockTemplate vs m unixNow (pools attempts) (draws attempts) .standard)
        (self.buildBlockTemplate vs m' unixNow (pools attempts) (draws attempts) .standard) :=
      buildBlockTemplate_sameVerdict h h' _ _ _
    rw [getBlockTemplateFrom, getBlockTemplateFrom]
    cases hb : self.buildBlockTemplate vs m unixNow (pools attempts) (draws attempts) .standard with
    | ok template =>
      obtain ⟨template', hb'⟩ := hs.exists_ok hb
      rw [hb']
      exact .ok _ _
    | error error =>
      rw [hs.eq_error hb]
      cases error with
      | invalidTransactionsInNewBlock invalid => exact ih (attempts + 1)
      | _ => exact .refl _

end

def Selects (self : MiningManager) (virtualState : VirtualState self.processor.storage.hasher)
    (pools : Nat → TransactionsPool) (draws : Nat → TemplateDraws) : Prop :=
  ∀ n buildMode message, self.attempted virtualState (pools n) (draws n) buildMode ≠
    .error (.panicked message)

section

variable (hselects : self.Selects vs pools draws) (hstocked : self.templateServices.Stocked vs)
  (hargs : self.templateServices.ArgsFit m)
include hselects hstocked hargs

theorem buildBlockTemplate_ne_panicked (n : Nat) (mode msg) :
    self.buildBlockTemplate vs m unixNow (pools n) (draws n) mode ≠ .error (.panicked msg) := by
  intro h
  rw [buildBlockTemplate_eq] at h
  cases ha : self.attempted vs (pools n) (draws n) mode with
  | error error =>
    rw [ha] at h
    obtain rfl := Except.error.inj h
    exact hselects n mode msg ha
  | ok out =>
    obtain ⟨template, hb⟩ := hstocked.build hargs
    rw [ha, ok_bind, hb] at h
    cases h

theorem getBlockTemplateFrom_ne_panicked (attempts left : Nat) (msg) :
    self.getBlockTemplateFrom vs m unixNow pools draws attempts left ≠ .error (.panicked msg) := by
  induction left generalizing attempts with
  | zero => exact buildBlockTemplate_ne_panicked hselects hstocked hargs attempts .infallible msg
  | succ left ih =>
    rw [getBlockTemplateFrom]
    split
    · exact ih (attempts + 1)
    · exact buildBlockTemplate_ne_panicked hselects hstocked hargs attempts .standard msg

end

theorem Limited.modify {services : TemplateServices} {template adapted}
    (h : self.Limited vs template)
    (hmodify : services.modifyBlockTemplate m template unixNow = .ok adapted) :
    self.Limited vs adapted := by
  obtain ⟨coinbase, txs, htxs, hcoinbase, hlimits⟩ := h
  obtain ⟨coinbase', hhead, hmodify⟩ := bind_ok hmodify
  obtain ⟨newPayload, -, hmodify⟩ := bind_ok hmodify
  cases hmodify
  rw [htxs, head?_cons, okOr_some, Except.ok.injEq] at hhead
  subst hhead
  refine ⟨_, txs, congrArg (_ :: ·) (congrArg tail htxs), ?_, hlimits⟩
  unfold replaceRedReward replacePayload
  split <;> split <;> exact hcoinbase

-- Handing a template out again or adapting it keeps it within the limits.
theorem getCachedBlockTemplate_limited {cache : BlockTemplateCache} {moment : Moment}
    (hvalidated : ∀ n, self.Validated vs (moment.pools n))
    (hcycles : ∀ n, self.CyclesFit vs (moment.pools n))
    (hcache : ∀ template ∈ cache.blockTemplate, self.Limited vs template) :
    (∀ template, (self.getCachedBlockTemplate vs cache m moment).1 = .ok template →
      self.Limited vs template) ∧
    ∀ template ∈ (self.getCachedBlockTemplate vs cache m moment).2.blockTemplate,
      self.Limited vs template := by
  have hlock : ∀ template ∈ (cache.lock (self.virtualStateApproxId vs)).blockTemplate,
      self.Limited vs template := by
    unfold BlockTemplateCache.lock
    split_ifs
    · simp
    · exact hcache
  unfold getCachedBlockTemplate
  dsimp only
  split
  · next template hlive =>
      have hlimited : self.Limited vs template := by
        unfold getImmutableCachedTemplate at hlive
        split_ifs at hlive
        exact hlock template hlive
      split_ifs
      · exact ⟨by simpa using hlimited, hlock⟩
      · exact ⟨fun adapted h => hlimited.modify (mapError_eq_ok_iff.mp h), hlock⟩
  · split
    · next template hbuilt =>
        obtain ⟨n, mode, hbuilt⟩ := exists_attempt_of_getBlockTemplateFrom hbuilt
        have hlimited := limited_of_buildBlockTemplate (hvalidated n) (hcycles n) hbuilt
        exact ⟨by simpa using hlimited, by simpa [setImmutableCachedTemplate] using hlimited⟩
    · exact ⟨by simp, hlock⟩

def Adaptable (self : MiningManager) (virtualState : VirtualState self.processor.storage.hasher)
    (template : BlockTemplate) : Prop :=
  template.minerData.lockScript.Encodable ∧ self.templateServices.Accepts template.minerData ∧
    template.toVirtualStateApproxId = self.virtualStateApproxId virtualState ∧
      ∃ txs calculatedFees unixNow outputs redReward, self.templateServices.BuiltFor virtualState
        template.minerData txs calculatedFees unixNow outputs redReward template

theorem adaptable_of_getBlockTemplate {template} (hlock : m.lockScript.Encodable)
    (haccepts : self.templateServices.Accepts m)
    (h : self.getBlockTemplate vs m unixNow pools draws = .ok template) :
    template.minerData = m ∧ self.Adaptable vs template := by
  obtain ⟨n, mode, hb⟩ := exists_attempt_of_getBlockTemplateFrom h
  obtain ⟨out, -, hb⟩ := bind_ok hb
  obtain ⟨rfl, hid⟩ := miner_of_build hb
  obtain ⟨outputs, redReward, hbu⟩ := builtFor_of_build hb
  exact ⟨rfl, hlock, haccepts, hid, _, _, _, _, _, hbu⟩

end MiningManager

def BlockTemplateCache.shape (cache : BlockTemplateCache) : Nat × Bool × Nat :=
  (cache.lastUpdateTime, cache.blockTemplate.isSome, cache.cacheLifetime)

theorem BlockTemplateCache.live_of_shape {cache cache' : BlockTemplateCache}
    (h : cache.shape = cache'.shape) (now : Nat) :
    (cache.getImmutableCachedTemplate now).isSome =
    (cache'.getImmutableCachedTemplate now).isSome := by
  obtain ⟨ht, hr⟩ := Prod.mk.inj h
  obtain ⟨hs, hl⟩ := Prod.mk.inj hr
  unfold getImmutableCachedTemplate
  rw [ht, hl]
  split_ifs
  · rfl
  · exact hs

namespace RpcCoreService

open CoinbaseManager TemplateServices

variable {self : RpcCoreService} {vs : VirtualState self.virtualHasher}
  {cache cache' : BlockTemplateCache}
  {moment : Moment} {request request' : GetBlockTemplateRequest} {template : BlockTemplate}

def services (self : RpcCoreService) : TemplateServices := self.miningManager.templateServices

-- An answer that is no abort, and in which a template pays the one who asked.
structure Honest (service : RpcCoreService) (request : GetBlockTemplateRequest)
    (answer : Except RpcError BlockTemplate) : Prop where
  isPanic : ∀ error, answer = .error error → error.isPanic = false
  decoded : ∀ template, answer = .ok template → ∃ payload parsed,
    template.block.transactions.head?.bind CellTx.payload = some payload ∧
      service.services.coinbaseManager.deserializeCoinbasePayload payload = .ok parsed ∧
        parsed.minerData = service.minerDataOf request

def Holds (self : RpcCoreService) (virtualState : VirtualState self.virtualHasher)
    (cache : BlockTemplateCache) :
    Prop :=
  ∀ template ∈ cache.blockTemplate, self.miningManager.Adaptable virtualState template

theorem Holds.lock (h : self.Holds vs cache) :
    cache.lock (self.miningManager.virtualStateApproxId vs) = cache := by
  unfold BlockTemplateCache.lock
  rw [if_neg]
  intro hany
  cases ht : cache.blockTemplate with
  | none => rw [ht] at hany; cases hany
  | some template =>
    rw [ht] at hany
    exact of_decide_eq_true hany (h template ht).2.2.1

def lengthChecked (self : RpcCoreService) (template : BlockTemplate) :
    Except RpcError BlockTemplate :=
  if self.maxCoinbasePayloadLen < (template.block.transactions.head?.bind CellTx.payload).elim 0
      length then
    .error (.coinbasePayloadLengthAboveMax self.maxCoinbasePayloadLen)
  else .ok template

theorem getBlockTemplateCall_eq (hnetwork : request.payAddress.prefix_ = self.prefix_) {answer}
    (h : self.miningManager.getCachedBlockTemplate vs cache (self.minerDataOf request) moment =
      (answer, cache')) :
    self.getBlockTemplateCall vs cache moment request =
    (answer.mapError .mining >>= self.lengthChecked, cache') := by
  unfold getBlockTemplateCall
  rw [if_neg (not_not_intro hnetwork), h]
  cases answer with
  | error error => rfl
  | ok template =>
    change (if _ then _ else _) = (self.lengthChecked template, cache')
    unfold lengthChecked
    split_ifs <;> rfl

section

variable (hmax : self.services.coinbaseManager.coinbasePayloadScriptPublicKeyMaxLen < 256)
include hmax

theorem honest_lengthChecked (hargs : self.services.ArgsFit (self.minerDataOf request))
    (hpays : self.services.Pays vs (self.minerDataOf request) template) :
    self.Honest request (self.lengthChecked template) ∧ ((self.lengthChecked template).isOk = true ↔
      self.services.Accepts (self.minerDataOf request)) := by
  obtain ⟨coinbase, hc, hp⟩ := hpays
  have hse := serialize_payloadFor vs hargs
  have hl := length_of_serialize hse
  have hf := bind_eq_some_iff.mpr ⟨coinbase, hc, hp⟩
  unfold lengthChecked
  rw [hf, elim_some, hl]
  by_cases hs : payloadLength (self.minerDataOf request) ≤ self.maxCoinbasePayloadLen
  · rw [if_neg (Nat.not_lt.mpr hs)]
    obtain ⟨parsed, hpa, hm⟩ := deserialize_serialize hmax
      (encodable_addressToLockScript self.locks request.payAddress) hse (hl.trans_le hs)
    refine ⟨⟨?_, ?_⟩, fun _ => ⟨hargs, hs⟩, fun _ => rfl⟩
    · rintro error ⟨⟩
    · rintro _ ⟨rfl⟩
      exact ⟨_, parsed, hf, hpa, hm⟩
  · rw [if_pos (Nat.lt_of_not_le hs)]
    refine ⟨⟨?_, ?_⟩, ?_, fun ha => absurd ha.payload hs⟩
    · rintro _ ⟨rfl⟩
      rfl
    · rintro template ⟨⟩
    · rintro ⟨⟩

theorem getBlockTemplateCall_of_live
    (hholds : self.Holds vs cache) (hnetwork : request.payAddress.prefix_ = self.prefix_)
    (hlive : cache.getImmutableCachedTemplate moment.readTime = some template) :
    ∃ answer, self.getBlockTemplateCall vs cache moment request = (answer, cache) ∧
    self.Honest request answer ∧
    (answer.isOk = true ↔ self.services.Accepts (self.minerDataOf request)) := by
  have hc : template ∈ cache.blockTemplate := by
    unfold getImmutableCachedTemplate at hlive
    split_ifs at hlive
    exact hlive
  obtain ⟨hlo, ha, -, txs, calculatedFees, unixNow, outputs, redReward, hb⟩ := hholds template hc
  have hca : self.miningManager.getCachedBlockTemplate vs cache (self.minerDataOf request) moment =
      (if template.minerData = self.minerDataOf request then .ok template
        else (self.services.modifyBlockTemplate (self.minerDataOf request) template
          moment.unixNow).mapError .coinbase,
        cache) := by
    unfold getCachedBlockTemplate
    rw [hholds.lock]
    dsimp only
    rw [hlive]
    dsimp only
    split_ifs <;> rfl
  refine ⟨_, getBlockTemplateCall_eq hnetwork hca, ?_⟩
  by_cases hm : template.minerData = self.minerDataOf request
  · rw [if_pos hm]
    rw [hm] at ha hb
    exact honest_lengthChecked hmax ha.args (pays_of_builtFor hb)
  · rw [if_neg hm]
    obtain ⟨adapted, had, hp, hargs⟩ | ⟨had, hl⟩ := modify_of_builtFor hmax hlo ha hb moment.unixNow
    · rw [had]
      exact honest_lengthChecked hmax hargs hp
    · rw [had]
      refine ⟨⟨?_, ?_⟩, ?_, fun ha => absurd ha.args (Nat.not_le.mpr hl)⟩
      · rintro _ ⟨rfl⟩
        rfl
      · rintro template ⟨⟩
      · rintro ⟨⟩

theorem getBlockTemplateCall_of_none
    (hstocked : self.services.Stocked vs)
    (hselects : self.miningManager.Selects vs moment.pools moment.draws)
    (hholds : self.Holds vs cache) (hnetwork : request.payAddress.prefix_ = self.prefix_)
    (hnone : cache.getImmutableCachedTemplate moment.readTime = none)
    (haccepts : self.services.Accepts (self.minerDataOf request)) :
    ∃ answer cache', self.getBlockTemplateCall vs cache moment request = (answer, cache') ∧
      self.Honest request answer ∧ self.Holds vs cache' ∧
        answer.isOk =
        (self.miningManager.getBlockTemplate vs (self.minerDataOf request) moment.unixNow
          moment.pools moment.draws).isOk ∧
        cache'.shape = if answer.isOk = true then (moment.storeTime, true, cache.cacheLifetime)
        else cache.shape := by
  cases hb : self.miningManager.getBlockTemplate vs (self.minerDataOf request) moment.unixNow
      moment.pools moment.draws with
  | error error =>
    have hc : self.miningManager.getCachedBlockTemplate vs cache (self.minerDataOf request) moment =
        (.error (.rule error), cache) := by
      unfold getCachedBlockTemplate
      rw [hholds.lock]
      simp only [hnone, hb]
    refine ⟨_, cache, getBlockTemplateCall_eq hnetwork hc, ⟨?_, ?_⟩, hholds, rfl, rfl⟩
    · rintro _ ⟨rfl⟩
      cases error with
      | panicked msg =>
        exact absurd hb (getBlockTemplateFrom_ne_panicked hselects hstocked haccepts.args _ _ msg)
      | _ => rfl
    · rintro template ⟨⟩
  | ok template =>
    obtain ⟨hm, ha⟩ := adaptable_of_getBlockTemplate
      (encodable_addressToLockScript self.locks request.payAddress) haccepts hb
    obtain ⟨txs, calculatedFees, unixNow, outputs, redReward, hbu⟩ := ha.2.2.2
    rw [hm] at hbu
    obtain ⟨hh, hok⟩ := honest_lengthChecked hmax haccepts.args (pays_of_builtFor hbu)
    have hc : self.miningManager.getCachedBlockTemplate vs cache (self.minerDataOf request) moment =
        (.ok template, cache.setImmutableCachedTemplate moment.storeTime template) := by
      unfold getCachedBlockTemplate
      rw [hholds.lock]
      simp only [hnone, hb]
    refine ⟨_, _, getBlockTemplateCall_eq hnetwork hc, hh, ?_, hok.mpr haccepts, ?_⟩
    · rintro _ ⟨rfl⟩
      exact ha
    · exact (if_pos (hok.mpr haccepts)).symm

end

def Admits (self : RpcCoreService) (virtualState : VirtualState self.virtualHasher)
    (cache : BlockTemplateCache) (moment : Moment) (request : GetBlockTemplateRequest) : Prop :=
  (cache.lock (self.miningManager.virtualStateApproxId virtualState)).getImmutableCachedTemplate
    moment.readTime = none → self.services.Accepts (self.minerDataOf request)

def Proceeds (self : RpcCoreService) (virtualState : VirtualState self.virtualHasher) :
    BlockTemplateCache → List (Moment × GetBlockTemplateRequest) → Prop
  | _, [] => True
  | cache, (moment, request) :: rest => self.Admits virtualState cache moment request ∧
      Proceeds self virtualState (self.getBlockTemplateCall virtualState cache moment request).2
        rest

structure Ready (service : RpcCoreService) (virtualState : VirtualState service.virtualHasher)
    (moments : List Moment) : Prop where
  maxLen : service.services.coinbaseManager.coinbasePayloadScriptPublicKeyMaxLen < 256
  stocked : service.services.Stocked virtualState
  selects : ∀ moment ∈ moments, service.miningManager.Selects virtualState moment.pools moment.draws

section Runs

variable {moments : List Moment} {script script' : List (Moment × GetBlockTemplateRequest)}

variable (hready : self.Ready vs moments)
include hready

theorem getBlockTemplateCall_keeps (hmoment : moment ∈ moments)
    (hholds : self.Holds vs cache) (hnetwork : request.payAddress.prefix_ = self.prefix_)
    (hadmits : self.Admits vs cache moment request) :
    self.Honest request (self.getBlockTemplateCall vs cache moment request).1 ∧
    self.Holds vs (self.getBlockTemplateCall vs cache moment request).2 := by
  unfold Admits at hadmits
  rw [hholds.lock] at hadmits
  cases hc : cache.getImmutableCachedTemplate moment.readTime with
  | some template =>
    obtain ⟨answer, hca, hh, -⟩ := getBlockTemplateCall_of_live hready.maxLen hholds hnetwork hc
    rw [hca]
    exact ⟨hh, hholds⟩
  | none =>
    obtain ⟨answer, cache', hca, hh, hh', -⟩ := getBlockTemplateCall_of_none hready.maxLen
      hready.stocked (hready.selects moment hmoment) hholds hnetwork hc (hadmits hc)
    rw [hca]
    exact ⟨hh, hh'⟩

theorem getBlockTemplateCall_alike (hmoment : moment ∈ moments)
    (hholds : self.Holds vs cache) (hholds' : self.Holds vs cache')
    (hshape : cache.shape = cache'.shape) (hnetwork : request.payAddress.prefix_ = self.prefix_)
    (hnetwork' : request'.payAddress.prefix_ = self.prefix_)
    (hadmits : self.Admits vs cache moment request)
    (hadmits' : self.Admits vs cache' moment request') :
    (self.getBlockTemplateCall vs cache moment request).2.shape =
    (self.getBlockTemplateCall vs cache' moment request').2.shape ∧
    (request' = request → (self.getBlockTemplateCall vs cache moment request).1.isOk =
      (self.getBlockTemplateCall vs cache' moment request').1.isOk) := by
  have hl := live_of_shape hshape moment.readTime
  unfold Admits at hadmits hadmits'
  rw [hholds.lock] at hadmits
  rw [hholds'.lock] at hadmits'
  cases hc : cache.getImmutableCachedTemplate moment.readTime with
  | some template =>
    rw [hc] at hl
    obtain ⟨template', hc'⟩ := isSome_iff_exists.mp hl.symm
    obtain ⟨answer, hca, -, hok⟩ := getBlockTemplateCall_of_live hready.maxLen hholds hnetwork hc
    obtain ⟨answer', hca', -, hok'⟩ :=
      getBlockTemplateCall_of_live hready.maxLen hholds' hnetwork' hc'
    rw [hca, hca']
    refine ⟨hshape, ?_⟩
    rintro rfl
    exact Bool.eq_iff_iff.mpr (hok.trans hok'.symm)
  | none =>
    rw [hc] at hl
    have hc' := isNone_iff_eq_none.mp (isSome_eq_false_iff.mp hl.symm)
    obtain ⟨answer, next, hca, -, -, hok, hn⟩ := getBlockTemplateCall_of_none hready.maxLen
      hready.stocked (hready.selects moment hmoment) hholds hnetwork hc (hadmits hc)
    obtain ⟨answer', next', hca', -, -, hok', hn'⟩ := getBlockTemplateCall_of_none hready.maxLen
      hready.stocked (hready.selects moment hmoment) hholds' hnetwork' hc' (hadmits' hc')
    have hv : answer.isOk = answer'.isOk := by
      rw [hok, hok']
      exact (getBlockTemplateFrom_sameVerdict (hadmits hc).args (hadmits' hc').args
        _ _).isOk_eq
    rw [hca, hca']
    refine ⟨?_, fun _ => hv⟩
    rw [hn, hn', hv, hshape, (Prod.mk.inj (Prod.mk.inj hshape).2).2]

theorem honest_serve (hmoments : ∀ step ∈ script, step.1 ∈ moments)
    (hnetworks : ∀ step ∈ script, step.2.payAddress.prefix_ = self.prefix_)
    (hholds : self.Holds vs cache) (hproceeds : self.Proceeds vs cache script) :
    Forall₂ (fun step answer => self.Honest step.2 answer) script
    (self.serve vs cache script) := by
  induction script generalizing cache with
  | nil => exact .nil
  | cons step rest ih =>
    obtain ⟨ha, hr⟩ := hproceeds
    rw [forall_mem_cons] at hmoments hnetworks
    obtain ⟨hh, hn⟩ := getBlockTemplateCall_keeps hready hmoments.1 hholds hnetworks.1 ha
    exact .cons hh (ih hmoments.2 hnetworks.2 hn hr)

theorem serve_alike (hmoments : ∀ step ∈ script, step.1 ∈ moments)
    (hsame : script'.map Prod.fst = script.map Prod.fst)
    (hnetworks : ∀ step ∈ script, step.2.payAddress.prefix_ = self.prefix_)
    (hnetworks' : ∀ step ∈ script', step.2.payAddress.prefix_ = self.prefix_)
    (hholds : self.Holds vs cache) (hholds' : self.Holds vs cache')
    (hshape : cache.shape = cache'.shape) (hproceeds : self.Proceeds vs cache script)
    (hproceeds' : self.Proceeds vs cache' script') {i : Nat} (hi : script'[i]? = script[i]?) :
    (self.serve vs cache script)[i]?.map Except.isOk =
    (self.serve vs cache' script')[i]?.map Except.isOk := by
  induction script generalizing script' cache cache' i with
  | nil =>
    obtain rfl := map_eq_nil_iff.mp hsame
    rfl
  | cons step rest ih =>
    obtain _ | ⟨⟨moment', request'⟩, rest'⟩ := script'
    · cases hsame
    obtain ⟨rfl, ht⟩ := cons.inj hsame
    obtain ⟨ha, hr⟩ := hproceeds
    obtain ⟨ha', hr'⟩ := hproceeds'
    rw [forall_mem_cons] at hmoments hnetworks hnetworks'
    obtain ⟨hn, hv⟩ := getBlockTemplateCall_alike hready hmoments.1 hholds hholds' hshape
      hnetworks.1 hnetworks'.1 ha ha'
    cases i with
    | zero => exact congrArg some (hv (Prod.mk.inj (Option.some.inj hi)).2)
    | succ i =>
      exact ih hmoments.2 ht hnetworks.2 hnetworks'.2
        (getBlockTemplateCall_keeps hready hmoments.1 hholds hnetworks.1 ha).2
        (getBlockTemplateCall_keeps hready hmoments.1 hholds' hnetworks'.1 ha').2 hn hr hr' hi

end Runs

theorem holds_new (cacheLifetime : Nat) : self.Holds vs (.new cacheLifetime) := by
  rintro template ⟨⟩

-- If every request that finds no live template is short enough, no request of a sequence aborts,
-- every template pays the one who asked for it, and no verdict depends on the earlier requests.
theorem serve_harmless (self : RpcCoreService) (virtualState : VirtualState self.virtualHasher)
    (cacheLifetime : Nat) (script : List (Moment × GetBlockTemplateRequest))
    (hready : self.Ready virtualState (script.map Prod.fst))
    (hnetworks : ∀ step ∈ script, step.2.payAddress.prefix_ = self.prefix_)
    (hproceeds : self.Proceeds virtualState (.new cacheLifetime) script) :
    Forall₂ (fun step answer => self.Honest step.2 answer) script
    (self.serve virtualState (.new cacheLifetime) script) ∧
    ∀ script' : List (Moment × GetBlockTemplateRequest),
    script'.map Prod.fst = script.map Prod.fst →
    (∀ step ∈ script', step.2.payAddress.prefix_ = self.prefix_) →
    self.Proceeds virtualState (.new cacheLifetime) script' → ∀ i : Nat, script'[i]? = script[i]? →
    (self.serve virtualState (.new cacheLifetime) script)[i]?.map Except.isOk =
    (self.serve virtualState (.new cacheLifetime) script')[i]?.map Except.isOk := by
  have hm : ∀ step ∈ script, step.1 ∈ script.map Prod.fst := fun step hs => mem_map_of_mem hs
  exact ⟨honest_serve hready hm hnetworks (holds_new cacheLifetime) hproceeds,
    fun script' hsa hn' hp' i hi => serve_alike hready hm hsa hnetworks hn'
      (holds_new cacheLifetime) (holds_new cacheLifetime) rfl hproceeds hp' hi⟩

end RpcCoreService

section Requests

-- A node with an empty mempool. Its lock scripts may have 150 bytes of arguments, its payloads 216
-- bytes.
def templateService : RpcCoreService where
  miningManager := miningManager 1000
  locks := ⟨fun _ => 7, fun _ => by decide⟩
  version := []
  prefix_ := .mainnet

def firstMoment : Moment := ⟨1, 10, 1, fun _ => ⟨Frontier.empty, ∅⟩, fun _ => ⟨[], []⟩⟩

def requestOf (byte : UInt8) (extraData : Bytes) : GetBlockTemplateRequest :=
  ⟨⟨.mainnet, .stdSingle, replicate 20 byte, by simp [Addresses.isValidPayload]⟩, extraData⟩

def longScriptRequest : GetBlockTemplateRequest :=
  ⟨⟨.mainnet, .fullScript, replicate 32 0 ++ [1] ++ Addresses.encodeVarint 151 ++
    replicate 151 0, by decide +kernel⟩, []⟩

def aborted : Except RpcError BlockTemplate → Bool
  | .error error => error.isPanic
  | .ok _ => false

def served (requests : List GetBlockTemplateRequest) : List (Except RpcError BlockTemplate) :=
  templateService.serve miningState (.new 1000) (requests.map fun request => (firstMoment, request))

theorem ready_templateService (moments) (h : ∀ moment ∈ moments, moment = firstMoment) :
    templateService.Ready miningState moments := by
  refine ⟨by decide, .of_rewards rfl (by decide +kernel) (by decide +kernel), ?_⟩
  intro moment hm n mode msg he
  obtain rfl := h moment hm
  have hok : ((miningManager 1000).attempted miningState ⟨Frontier.empty, ∅⟩ ⟨[], []⟩ mode).isOk =
      true := by
    cases mode <;> decide +kernel
  change (miningManager 1000).attempted miningState ⟨Frontier.empty, ∅⟩ ⟨[], []⟩ mode = _ at he
  rw [he] at hok
  cases hok

theorem served_two_miners :
    (served [requestOf 1 [], requestOf 2 [3]]).map Except.isOk = [true, true] ∧
    Forall₂ (fun step answer => templateService.Honest step.2 answer)
    [(firstMoment, requestOf 1 []), (firstMoment, requestOf 2 [3])]
    (served [requestOf 1 [], requestOf 2 [3]]) := by
  refine ⟨by decide +kernel, (RpcCoreService.serve_harmless templateService miningState 1000 _
    (ready_templateService _ ?_) ?_ ?_).1⟩
  · simp
  · simp [requestOf, templateService]
  · exact ⟨fun _ => ⟨by decide, by decide⟩, fun _ => ⟨by decide, by decide⟩, trivial⟩

-- A long lock script aborts. Long extra data is refused, but the template that was made for it
-- stays in the cache, and the next miner gets an error instead of a template.
theorem served_long_requests : (served [longScriptRequest]).map aborted = [true] ∧
    (served [requestOf 1 (replicate 200 0), requestOf 2 []]).map Except.isOk = [false, false] ∧
    (served [requestOf 1 [], requestOf 2 []]).map Except.isOk = [true, true] := by
  decide +kernel

end Requests

end Spora
