import Spora.Cell.Words
import Spora.Template.Build

namespace Spora

open Std Outcome List

namespace CoinbaseManager

variable {self : CoinbaseManager} {data parsed : CoinbaseData} {pl newPayload : Bytes}
  {minerData : MinerData}

theorem serializeCoinbasePayload_eq_ok_iff : self.serializeCoinbasePayload data = .ok pl ↔
    data.minerData.lockScript.args.length ≤ self.coinbasePayloadScriptPublicKeyMaxLen ∧
    pl = leBytes 8 data.blueScore ++
    (leBytes 8 data.subsidy ++ (leBytes 32 data.minerData.lockScript.codeHash ++
      (leBytes 1 data.minerData.lockScript.hashType ++
      (leBytes 1 data.minerData.lockScript.args.length ++
      (data.minerData.lockScript.args ++ (COINBASE_MASS_COMMITMENT_MAGIC ++
      (leBytes 8 data.massCommitment ++ data.minerData.extraData))))))) := by
  unfold serializeCoinbasePayload
  dsimp only
  split_ifs with hl
  · simp only [false_iff]
    omega
  · simp only [Except.ok.injEq, append_assoc]
    exact ⟨fun heq => ⟨by omega, heq.symm⟩, fun heq => heq.2.symm⟩

theorem take_drop_of_split {pre field rest bytes : Bytes}
    (hbytes : bytes = pre ++ (field ++ rest)) :
    (bytes.drop pre.length).take field.length = field := by
  rw [hbytes, drop_left, take_left]

def payloadLength (minerData : MinerData) : Nat :=
  62 + minerData.lockScript.args.length + minerData.extraData.length

theorem length_of_serialize (h : self.serializeCoinbasePayload data = .ok pl) :
    pl.length = payloadLength data.minerData := by
  obtain ⟨-, rfl⟩ := serializeCoinbasePayload_eq_ok_iff.mp h
  simp only [length_append, length_leBytes, payloadLength]
  have hm : COINBASE_MASS_COMMITMENT_MAGIC.length = 4 := rfl
  omega

-- What is read of the data: every number modulo the width of its field.
def readBack (data : CoinbaseData) : CoinbaseData where
  blueScore := leNat (leBytes 8 data.blueScore)
  subsidy := leNat (leBytes 8 data.subsidy)
  massCommitment := leNat (leBytes 8 data.massCommitment)
  minerData := ⟨⟨leNat (leBytes 32 data.minerData.lockScript.codeHash),
    leNat (leBytes 1 data.minerData.lockScript.hashType), data.minerData.lockScript.args⟩,
      data.minerData.extraData⟩

section

variable (hmax : self.coinbasePayloadScriptPublicKeyMaxLen < 256)
include hmax

theorem deserialize_of_serialize
    (h : self.serializeCoinbasePayload data = .ok pl) :
    self.deserializeCoinbasePayload pl = if pl.length > self.maxCoinbasePayloadLen then
      .error (.payloadLenAboveMax pl.length self.maxCoinbasePayloadLen)
      else .ok (readBack data) := by
  obtain ⟨har, hp⟩ := serializeCoinbasePayload_eq_ok_iff.mp h
  have ht := length_of_serialize h
  unfold payloadLength at ht
  -- the fields by their offsets
  have hsc : pl.take 8 = leBytes 8 data.blueScore := by
    rw [hp]
    exact take_left' (length_leBytes 8 _)
  have hs : (pl.drop 8).take 8 = leBytes 8 data.subsidy := by
    simpa [length_leBytes] using take_drop_of_split hp
  have hco : (pl.drop 16).take 32 = leBytes 32 data.minerData.lockScript.codeHash := by
    rw [← append_assoc] at hp
    simpa [length_leBytes] using take_drop_of_split hp
  have hty : (pl.drop 48).take 1 = leBytes 1 data.minerData.lockScript.hashType := by
    iterate 2 rw [← append_assoc] at hp
    simpa [length_leBytes] using take_drop_of_split hp
  have hc : leNat ((pl.drop 49).take 1) = data.minerData.lockScript.args.length := by
    iterate 3 rw [← append_assoc] at hp
    have hf : (pl.drop 49).take 1 = leBytes 1 data.minerData.lockScript.args.length := by
      simpa [length_leBytes] using take_drop_of_split hp
    rw [hf]
    exact leNat_leBytes (by unfold Fits; omega)
  have ha : (pl.drop MIN_PAYLOAD_LENGTH).take data.minerData.lockScript.args.length =
      data.minerData.lockScript.args := by
    iterate 4 rw [← append_assoc] at hp
    simpa [length_leBytes, MIN_PAYLOAD_LENGTH] using take_drop_of_split hp
  have hb : (pl.drop MIN_PAYLOAD_LENGTH).drop data.minerData.lockScript.args.length =
      COINBASE_MASS_COMMITMENT_MAGIC ++
          (leBytes 8 data.massCommitment ++ data.minerData.extraData) := by
    iterate 5 rw [← append_assoc] at hp
    rw [drop_drop, hp]
    exact drop_left' (by simp [length_leBytes, MIN_PAYLOAD_LENGTH]; omega)
  have hsp : splitMassCommitment
      ((pl.drop MIN_PAYLOAD_LENGTH).drop data.minerData.lockScript.args.length) =
      (leNat (leBytes 8 data.massCommitment), data.minerData.extraData) := by
    rw [hb]
    refine Prod.ext (congrArg leNat (take_left' (length_leBytes 8 _))) ?_
    rw [← append_assoc]
    exact drop_left' (by simp [COINBASE_MASS_COMMITMENT_MAGIC, length_leBytes])
  unfold deserializeCoinbasePayload
  rw [if_neg (by unfold MIN_PAYLOAD_LENGTH; omega), hc, hsc, hs, hco, hty]
  by_cases hl : pl.length > self.maxCoinbasePayloadLen
  · rw [if_pos hl, if_pos hl]
    rfl
  · rw [if_neg hl, if_neg hl]
    rw [if_neg (by omega), if_neg (by rw [length_drop]; unfold MIN_PAYLOAD_LENGTH; omega), hsp, ha]
    rfl

theorem serialize_of_modify
    (hserialize : self.serializeCoinbasePayload data = .ok pl)
    (hmodify : self.modifyCoinbasePayload pl minerData = .ok newPayload) :
    self.serializeCoinbasePayload { data with minerData := minerData } = .ok newPayload := by
  unfold modifyCoinbasePayload at hmodify
  simp only [throw_eq_error, error_bind] at hmodify
  split_ifs at hmodify
  obtain ⟨parsed, hp, hmodify⟩ := bind_ok hmodify
  rw [deserialize_of_serialize hmax hserialize] at hp
  split_ifs at hp
  obtain rfl := Except.ok.inj hp
  rw [serializeCoinbasePayload_eq_ok_iff] at hmodify ⊢
  simpa only [readBack, leBytes_leNat_leBytes] using hmodify

-- Data whose numbers fit their fields is read back exactly within the limits, and then the payload
-- can be adapted.
theorem payload_roundTrips_iff (hdata : readBack data = data) :
    (∃ payload, self.serializeCoinbasePayload data = .ok payload ∧
      self.deserializeCoinbasePayload payload = .ok data ∧
      ∀ minerData, self.modifyCoinbasePayload payload minerData =
        self.serializeCoinbasePayload { data with minerData := minerData }) ↔
    data.minerData.lockScript.args.length ≤ self.coinbasePayloadScriptPublicKeyMaxLen ∧
      payloadLength data.minerData ≤ self.maxCoinbasePayloadLen := by
  constructor
  · rintro ⟨payload, hs, hd, -⟩
    rw [deserialize_of_serialize hmax hs, length_of_serialize hs] at hd
    split_ifs at hd with hlen
    exact ⟨(serializeCoinbasePayload_eq_ok_iff.mp hs).1, Nat.le_of_not_lt hlen⟩
  · rintro ⟨hargs, hlen⟩
    have hs := serializeCoinbasePayload_eq_ok_iff.mpr ⟨hargs, rfl⟩
    have hd := deserialize_of_serialize hmax hs
    rw [length_of_serialize hs, if_neg (Nat.not_lt.mpr hlen), hdata] at hd
    refine ⟨_, hs, hd, fun minerData => ?_⟩
    rw [modifyCoinbasePayload, hd]
    dsimp only [serializeCoinbasePayload]
    split_ifs
    · rfl
    · rfl

end

def roundTripManager : CoinbaseManager := ⟨9, 99, 0, 0, 1, []⟩

def roundTripData : CoinbaseData := ⟨1000, 50, 7, ⟨⟨11, 1, [1, 2, 3]⟩, [4, 5]⟩⟩

theorem payload_roundTrips_sample :
    ∃ payload, roundTripManager.serializeCoinbasePayload roundTripData = .ok payload ∧
    roundTripManager.deserializeCoinbasePayload payload = .ok roundTripData ∧
    ∀ minerData, roundTripManager.modifyCoinbasePayload payload minerData =
      roundTripManager.serializeCoinbasePayload { roundTripData with minerData := minerData } :=
  (payload_roundTrips_iff (by decide) (by decide)).mpr ⟨by decide, by decide⟩

theorem serialize_ne_nil (h : self.serializeCoinbasePayload data = .ok pl) : pl ≠ [] := by
  obtain ⟨-, rfl⟩ := serializeCoinbasePayload_eq_ok_iff.mp h
  intro hnil
  have hl := congrArg List.length hnil
  simp [length_leBytes] at hl

abbrev withRedReward (outputs : List CellOutput) (redReward : Nat) (lock : Script) :
    List CellOutput := if redReward > 0 then outputs ++ [⟨lock, none, redReward⟩] else outputs

theorem expectedCoinbaseTransaction_eq_ok {daa gd rews nonDaa tpl}
    (h : self.expectedCoinbaseTransaction daa minerData gd rews nonDaa = .ok tpl) :
    ∃ outputs redReward pl, gd.mergesetBlues.foldlM (blueOutputs rews nonDaa) [] = .ok outputs ∧
      gd.mergesetReds.foldlM (addRedReward rews nonDaa) 0 = .ok redReward ∧
      self.serializeCoinbasePayload
        ⟨gd.blueScore, self.calcBlockSubsidy daa, 0, minerData⟩ = .ok pl ∧
      tpl = ⟨buildCoinbaseCellTx (withRedReward outputs redReward minerData.lockScript) pl,
        redReward > 0⟩ := by
  obtain ⟨outputs, ho, h⟩ := bind_ok h
  obtain ⟨redReward, hred, h⟩ := bind_ok h
  obtain ⟨pl, hp, h⟩ := bind_ok h
  exact ⟨outputs, redReward, pl, ho, hred, hp, (Except.ok.inj h).symm⟩

section Rewards

variable (rews : ExtTreeMap Hash BlockRewardData) (nonDaa : ExtTreeSet Hash)

def earned (block : Hash) : Nat :=
  rews[block]?.elim 0 fun reward => reward.subsidy + reward.totalFees

-- Outside the difficulty window a blue block is not paid, and for a red one only its fees are.
def withheldBlue (blue : Hash) : Nat := if blue ∈ nonDaa then earned rews blue else 0

def withheldRed (red : Hash) : Nat :=
  if red ∈ nonDaa then rews[red]?.elim 0 BlockRewardData.subsidy else 0

variable {rews nonDaa}

theorem eq_of_addOrPanic {a b s} (h : addOrPanic a b = .ok s) : s = a + b := by
  unfold addOrPanic checkedAdd at h
  split_ifs at h
  exact (Except.ok.inj h).symm

theorem getElem?_of_getReward {block r} (h : getReward rews block = .ok r) :
    rews[block]? = some r := by
  unfold getReward at h
  split at h
  · rename_i hreward
    exact hreward.trans (congrArg some (Except.ok.inj h))
  · contradiction

theorem blueOutputs_pays {outs outs' blue} (h : blueOutputs rews nonDaa outs blue = .ok outs') :
    (outs'.map CellOutput.capacity).sum + withheldBlue rews nonDaa blue =
    (outs.map CellOutput.capacity).sum + earned rews blue := by
  unfold blueOutputs at h
  unfold withheldBlue
  split_ifs at h with hout
  · cases h
    rw [if_pos hout]
  · obtain ⟨r, hreward, h⟩ := bind_ok h
    obtain ⟨s, hsum, h⟩ := bind_ok h
    obtain rfl := eq_of_addOrPanic hsum
    rw [if_neg hout, earned, getElem?_of_getReward hreward, Option.elim_some]
    split_ifs at h with hpos <;> cases h
    · simp
    · omega

theorem addRedReward_pays {sum sum' red} (h : addRedReward rews nonDaa sum red = .ok sum') :
    sum' + withheldRed rews nonDaa red = sum + earned rews red := by
  obtain ⟨r, hreward, h⟩ := bind_ok h
  rw [withheldRed, earned, getElem?_of_getReward hreward]
  split_ifs at h with hout
  · rw [eq_of_addOrPanic h, if_pos hout]
    simp only [Option.elim_some]
    omega
  · obtain ⟨s, hsum, h⟩ := bind_ok h
    rw [eq_of_addOrPanic h, eq_of_addOrPanic hsum, if_neg hout]
    rfl

theorem exists_reward {block} (hdata : block ∈ rews) {sum}
    (hsum : sum + earned rews block ≤ U64_MAX) (outs) :
    (∃ outs', blueOutputs rews nonDaa outs block = .ok outs') ∧
    ∃ sum', addRedReward rews nonDaa sum block = .ok sum' := by
  obtain ⟨r, hr⟩ := Option.isSome_iff_exists.mp (ExtTreeMap.isSome_getElem?_iff_mem.mpr hdata)
  have hadd {a b} (h : a + b ≤ U64_MAX) : addOrPanic a b = .ok (a + b) := by
    unfold addOrPanic
    rw [checkedAdd_eq_some_iff.mpr ⟨rfl, h⟩]
  simp only [earned, hr, Option.elim_some] at hsum
  have hown : addOrPanic r.subsidy r.totalFees = _ := hadd (by omega)
  have hfees : addOrPanic sum r.totalFees = _ := hadd (by omega)
  simp only [blueOutputs, addRedReward, getReward, hr, ok_bind, hown, hfees, hadd hsum]
  split_ifs <;> exact ⟨⟨_, rfl⟩, _, rfl⟩

theorem exists_rewards {blocks : List Hash} (hdata : ∀ block ∈ blocks, block ∈ rews) {sum}
    (hsum : sum + (blocks.map (earned rews)).sum ≤ U64_MAX) (outs) :
    (∃ outs', blocks.foldlM (blueOutputs rews nonDaa) outs = .ok outs') ∧
    ∃ sum', blocks.foldlM (addRedReward rews nonDaa) sum = .ok sum' := by
  induction blocks generalizing sum outs with
  | nil => exact ⟨⟨_, rfl⟩, _, rfl⟩
  | cons block rest ih =>
    rw [forall_mem_cons] at hdata
    rw [map_cons, sum_cons, ← Nat.add_assoc] at hsum
    obtain ⟨⟨outs', hblue⟩, sum', hred⟩ := exists_reward hdata.1 (Nat.le_of_add_right_le hsum) outs
    have := addRedReward_pays hred
    rw [foldlM_cons, foldlM_cons, hblue, hred]
    exact ih hdata.2 (by omega) outs'

-- The coinbase creates what the merged blocks have earned, less what is withheld: nothing is paid
-- twice or from nowhere.
theorem expectedCoinbaseTransaction_conserves (self : CoinbaseManager) (daaScore : Nat)
    (minerData : MinerData) (gd : GhostdagData) (rews : ExtTreeMap Hash BlockRewardData)
    (nonDaa : ExtTreeSet Hash) :
    match self.expectedCoinbaseTransaction daaScore minerData gd rews nonDaa with
    | .ok template =>
      (template.tx.outputs.map CellOutput.capacity).sum +
          ((gd.mergesetBlues.map (withheldBlue rews nonDaa)).sum +
          (gd.mergesetReds.map (withheldRed rews nonDaa)).sum) =
        ((gd.mergesetBlues ++ gd.mergesetReds).map (earned rews)).sum
    | .error _ => True := by
  split
  · rename_i template h
    obtain ⟨outs, red, pl, hblues, hreds, -, rfl⟩ := expectedCoinbaseTransaction_eq_ok h
    have hblue := foldlM_inits (I := fun done outs => (outs.map CellOutput.capacity).sum +
        (done.map (withheldBlue rews nonDaa)).sum = (done.map (earned rews)).sum)
      (fun done blue _ outs outs' _ hdone hstep => by
        have := blueOutputs_pays hstep
        simp only [map_append, map_singleton, sum_append, sum_singleton]
        omega) rfl hblues
    have hred := foldlM_inits (I := fun done sum => sum + (done.map (withheldRed rews nonDaa)).sum =
        (done.map (earned rews)).sum)
      (fun done red _ sum sum' _ hdone hstep => by
        have := addRedReward_pays hstep
        simp only [map_append, map_singleton, sum_append, sum_singleton]
        omega) rfl hreds
    simp only [buildCoinbaseCellTx, withRedReward, map_append, sum_append]
    split_ifs with hpos
    · simp only [map_append, map_singleton, sum_append, sum_singleton]
      omega
    · omega
  · trivial

end Rewards

theorem payload_buildCoinbaseCellTx {outputs} (h : pl ≠ []) :
    (buildCoinbaseCellTx outputs pl).payload = some pl := by
  cases outputs with
  | nil => simp [buildCoinbaseCellTx, CellTx.payload, CellTx.isCoinbase, h]
  | cons output outputs => simp [buildCoinbaseCellTx, CellTx.payload, CellTx.isCoinbase]

end CoinbaseManager

namespace TemplateServices

open CoinbaseManager

theorem replacePayload_buildCoinbaseCellTx {outputs} {payload newPayload : Bytes}
    (h : payload ≠ []) (hnew : newPayload ≠ []) :
    replacePayload (buildCoinbaseCellTx outputs payload) newPayload =
    buildCoinbaseCellTx outputs newPayload := by
  cases outputs with
  | nil => simp [replacePayload, buildCoinbaseCellTx, h, hnew]
  | cons output outputs => simp [replacePayload, buildCoinbaseCellTx]

theorem replaceRedReward_buildCoinbaseCellTx (outputs lock newLock) (redReward : Nat)
    (payload : Bytes) :
    replaceRedReward (buildCoinbaseCellTx (outputs ++ [⟨lock, none, redReward⟩]) payload) newLock =
    buildCoinbaseCellTx (outputs ++ [⟨newLock, none, redReward⟩]) payload := by
  have hl : ∀ l, (l ++ [(⟨lock, none, redReward⟩ : CellOutput)]).dropLast ++
      ((l ++ [(⟨lock, none, redReward⟩ : CellOutput)]).getLast?.map fun lastOutput =>
        ({ lastOutput with lock := newLock } : CellOutput)).toList =
        l ++ [(⟨newLock, none, redReward⟩ : CellOutput)] := by
    intro l
    rw [dropLast_concat, getLast?_concat]
    rfl
  unfold replaceRedReward
  cases outputs with
  | nil => rfl
  | cons output outputs =>
    have ho := hl (output :: outputs)
    simp only [buildCoinbaseCellTx, cons_append] at ho ⊢
    simp [ho]

variable {services : TemplateServices} {virtualState : VirtualState services.hasher}

def payloadFor (services : TemplateServices) (virtualState : VirtualState services.hasher)
    (minerData : MinerData) : Bytes :=
  (services.coinbaseManager.serializeCoinbasePayload ⟨virtualState.ghostdagData.blueScore,
    services.coinbaseManager.calcBlockSubsidy virtualState.daaScore, 0, minerData⟩).toOption.getD []

structure BuiltFor (services : TemplateServices) (virtualState : VirtualState services.hasher)
    (minerData : MinerData) (txs : List CellTx) (calculatedFees : List Nat) (unixNow : Nat)
    (outputs : List CellOutput) (redReward : Nat) (template : BlockTemplate) : Prop where
  blues : virtualState.ghostdagData.mergesetBlues.foldlM
    (blueOutputs virtualState.mergesetRewards virtualState.mergesetNonDaa) [] = .ok outputs
  reds : virtualState.ghostdagData.mergesetReds.foldlM
    (addRedReward virtualState.mergesetRewards virtualState.mergesetNonDaa) 0 = .ok redReward
  payload : services.coinbaseManager.serializeCoinbasePayload ⟨virtualState.ghostdagData.blueScore,
    services.coinbaseManager.calcBlockSubsidy virtualState.daaScore, 0, minerData⟩ =
      .ok (services.payloadFor virtualState minerData)
  transactions : template.block.transactions = buildCoinbaseCellTx
    (withRedReward outputs redReward minerData.lockScript)
      (services.payloadFor virtualState minerData) :: txs
  header : template.block.header =
    services.finalize (services.templateHeader virtualState template.block.transactions unixNow)
  hasRedReward : template.coinbaseHasRedReward = decide (redReward > 0)

theorem builtFor_of_build {minerData txs calculatedFees unixNow tpl}
    (h : services.buildBlockTemplateFromVirtualStateCell virtualState minerData txs calculatedFees
      unixNow = .ok tpl) :
    ∃ outputs redReward,
    services.BuiltFor virtualState minerData txs calculatedFees unixNow outputs redReward tpl := by
  obtain ⟨coinbase, hc, h⟩ := bind_ok h
  obtain ⟨sp, -, h⟩ := bind_ok h
  cases h
  obtain ⟨outputs, redReward, payload, hb, hr, hp, rfl⟩ :=
    expectedCoinbaseTransaction_eq_ok (mapError_eq_ok_iff.mp hc)
  have hfor : services.payloadFor virtualState minerData = payload := by
    unfold payloadFor
    rw [hp]
    rfl
  exact ⟨outputs, redReward, hb, hr, hfor ▸ hp, by rw [hfor], rfl, rfl⟩

end TemplateServices

-- Templates that agree in everything but the time they were made and, with it, the hash.
def BlockTemplate.SameButTime (t u : BlockTemplate) : Prop :=
  t.block.transactions = u.block.transactions ∧
    { t.block.header with hash := 0, timestamp := 0 } =
      { u.block.header with hash := 0, timestamp := 0 }

def TemplateServices.Recomputes (services : TemplateServices) (t : BlockTemplate) : Prop :=
  t.block.header.hashMerkleRoot = services.calcHashMerkleRootCell t.block.transactions ∧
    t.block.header.segmentRoot = services.digests.computeBlockSegmentRoot t.block.transactions

namespace TemplateServices

open CoinbaseManager

def dataChunks (txs : List CellTx) : List Bytes :=
  (txs.flatMap CellTx.outputsData).filter fun chunk => !chunk.isEmpty

theorem computeBlockSegmentRoot_coinbase (digests : StateDigests) {outputs} {payload : Bytes}
    (h : payload ≠ []) (txs) :
    digests.computeBlockSegmentRoot (buildCoinbaseCellTx outputs payload :: txs) =
      digests.segmentRoot (if outputs = [] then dataChunks txs else payload :: dataChunks txs) := by
  unfold StateDigests.computeBlockSegmentRoot dataChunks
  cases outputs with
  | nil => rfl
  | cons output outputs => simp [buildCoinbaseCellTx, h]

variable {services : TemplateServices} {virtualState : VirtualState services.hasher}
  {m₁ m₂ : MinerData}
  {txs : List CellTx} {calculatedFees : List Nat} {outputs : List CellOutput}
  {redReward now₁ now₂ now : Nat}
  {t₁ t₂ direct : BlockTemplate}

theorem modified_eq (hmax : services.coinbaseManager.coinbasePayloadScriptPublicKeyMaxLen < 256)
    (h₁ : services.BuiltFor virtualState m₁ txs calculatedFees now₁ outputs redReward t₁)
    (h₂ : services.BuiltFor virtualState m₂ txs calculatedFees now₂ outputs redReward direct)
    (h : services.modifyBlockTemplate m₂ t₁ now = .ok t₂) :
    t₂.block.transactions = direct.block.transactions ∧
      t₂.block.header = services.finalize { t₁.block.header with
        hashMerkleRoot := services.calcHashMerkleRootCell direct.block.transactions
        timestamp := max t₁.block.header.timestamp now } := by
  obtain ⟨coinbase, hc, h⟩ := bind_ok h
  obtain ⟨newPayload, hm, h⟩ := bind_ok h
  cases h
  rw [okOr_eq_ok_iff, h₁.transactions, head?_cons] at hc
  cases hc
  have hne₁ := serialize_ne_nil h₁.payload
  have hne₂ := serialize_ne_nil h₂.payload
  rw [payload_buildCoinbaseCellTx hne₁] at hm
  have hp := Except.ok.inj ((serialize_of_modify hmax h₁.payload hm).symm.trans h₂.payload)
  subst hp
  have htxs : (if t₁.coinbaseHasRedReward = true then
      replaceRedReward (replacePayload (buildCoinbaseCellTx
        (withRedReward outputs redReward m₁.lockScript) (services.payloadFor virtualState m₁))
          (services.payloadFor virtualState m₂)) m₂.lockScript
      else replacePayload (buildCoinbaseCellTx (withRedReward outputs redReward m₁.lockScript)
        (services.payloadFor virtualState m₁)) (services.payloadFor virtualState m₂)) ::
          t₁.block.transactions.tail = direct.block.transactions := by
    rw [replacePayload_buildCoinbaseCellTx hne₁ hne₂, h₁.hasRedReward, h₂.transactions,
      h₁.transactions, tail_cons]
    by_cases hred : redReward > 0
    · simp only [withRedReward, hred, decide_true, if_true, replaceRedReward_buildCoinbaseCellTx]
    · simp [withRedReward, hred]
  rw [htxs]
  exact ⟨rfl, rfl⟩

-- A template that is adapted to another miner is the one that miner would have been given, with the
-- roots that validation recomputes, exactly if its coinbase has no outputs, so that the payload is
-- no output data, or if the segment root does not tell the two payloads apart.
theorem modifyBlockTemplate_iff (services : TemplateServices)
    (hmax : services.coinbaseManager.coinbasePayloadScriptPublicKeyMaxLen < 256)
    (virtualState : VirtualState services.hasher) (m₁ m₂ : MinerData) (txs : List CellTx)
    (calculatedFees : List Nat) (now₁ now₂ now : Nat) (t₁ t₂ direct : BlockTemplate)
    (h₁ : services.buildBlockTemplateFromVirtualStateCell virtualState m₁ txs calculatedFees now₁ =
      .ok t₁)
    (h₂ : services.buildBlockTemplateFromVirtualStateCell virtualState m₂ txs calculatedFees now₂ =
      .ok direct) (h : services.modifyBlockTemplate m₂ t₁ now = .ok t₂) :
    t₂.SameButTime direct ∧ services.Recomputes t₂ ↔
    (∀ coinbase ∈ t₁.block.transactions.head?, coinbase.outputs = []) ∨
    services.digests.segmentRoot (services.payloadFor virtualState m₁ :: dataChunks txs) =
    services.digests.segmentRoot (services.payloadFor virtualState m₂ :: dataChunks txs) := by
  obtain ⟨outputs, redReward, hb₁⟩ := builtFor_of_build h₁
  obtain ⟨outputs₂, redReward₂, hb₂⟩ := builtFor_of_build h₂
  cases (hb₁.blues.symm.trans hb₂.blues)
  cases (hb₁.reds.symm.trans hb₂.reds)
  obtain ⟨htxs, hh⟩ := modified_eq hmax hb₁ hb₂ h
  have hr : t₂.SameButTime direct ∧ services.Recomputes t₂ ↔
      services.digests.computeBlockSegmentRoot t₁.block.transactions =
        services.digests.computeBlockSegmentRoot direct.block.transactions := by
    unfold BlockTemplate.SameButTime Recomputes
    rw [htxs, hh, hb₁.header, hb₂.header]
    simp [finalize, templateHeader]
  have he : (∀ coinbase ∈ t₁.block.transactions.head?, coinbase.outputs = []) ↔
      withRedReward outputs redReward m₁.lockScript = [] := by
    rw [hb₁.transactions]
    simp [buildCoinbaseCellTx]
  have hs : withRedReward outputs redReward m₁.lockScript = [] ↔
      withRedReward outputs redReward m₂.lockScript = [] := by
    unfold withRedReward
    split_ifs <;> simp
  rw [hr, he, hb₁.transactions, hb₂.transactions,
    computeBlockSegmentRoot_coinbase _ (serialize_ne_nil hb₁.payload),
    computeBlockSegmentRoot_coinbase _ (serialize_ne_nil hb₂.payload)]
  by_cases hn : withRedReward outputs redReward m₁.lockScript = []
  · rw [if_pos (hs.mp hn)]
    simp [hn]
  · rw [if_neg (hs.not.mp hn)]
    simp [hn]

end TemplateServices

section Adapted

def sampleTemplateServices : TemplateServices where
  hasher := Hasher.sample
  coinbaseManager := ⟨150, 216, 1000, 500, 1, [440]⟩
  digests := StateDigests.sample
  calcMerkleRoot := Hasher.digest
  headerHash header := Hasher.digest [header.hashMerkleRoot, header.segmentRoot, header.timestamp]
  headers hash := some ⟨hash, [], 0, 0, 0, 0, 0, 0, 0, 0⟩
  blueWork data := data.blueScore
  pruningPoint := 1
  expectedHeaderPruningPoint _ := 1
  calcBlockParents _ parents := [parents]

-- A virtual state over block 1, which is rewarded unless it is outside the window.
def rewardedState (mergesetNonDaa : ExtTreeSet Hash) : VirtualState Hasher.sample where
  parents := [1]
  ghostdagData := ⟨1, 1, [1], []⟩
  daaScore := 5
  bits := 0
  pastMedianTime := 0
  cellStateTree := .empty
  cellDiff := .empty
  blockCellDiffs := []
  acceptedTxIds := []
  mergesetRewards := (∅ : ExtTreeMap Hash BlockRewardData).insert 1 ⟨500, 0, ⟨3, 1, []⟩⟩
  mergesetNonDaa := mergesetNonDaa

def outsideWindow : ExtTreeSet Hash := ExtTreeSet.ofList [1]

def minerOf (codeHash : Hash) : MinerData := ⟨⟨codeHash, 1, []⟩, []⟩

def paymentTx : CellTx :=
  ⟨CELL_TX_VERSION, [⟨⟨20, 0⟩, 0⟩], [], [], [⟨⟨3, 1, []⟩, none, 100⟩], [[1, 2]], [[9]]⟩

def sampleTemplate (mergesetNonDaa : ExtTreeSet Hash) (codeHash : Hash) :
    Except RuleError BlockTemplate :=
  sampleTemplateServices.buildBlockTemplateFromVirtualStateCell (rewardedState mergesetNonDaa)
    (minerOf codeHash) [paymentTx] [5] 10

theorem modifyBlockTemplate_unrewarded : ∃ t₁ t₂ direct,
    sampleTemplate outsideWindow 11 = .ok t₁ ∧ sampleTemplate outsideWindow 12 = .ok direct ∧
    sampleTemplateServices.modifyBlockTemplate (minerOf 12) t₁ 20 = .ok t₂ ∧ t₂.SameButTime direct ∧
    sampleTemplateServices.Recomputes t₂ := by
  have hrun : (sampleTemplate outsideWindow 11).toOption.any (fun t₁ =>
      (sampleTemplateServices.modifyBlockTemplate (minerOf 12) t₁ 20).toOption.isSome &&
        t₁.block.transactions.head?.all fun coinbase => coinbase.outputs.isEmpty) =
          true := by decide +kernel
  have hd : (sampleTemplate outsideWindow 12).toOption.isSome = true := by decide +kernel
  obtain ⟨t₁, ht₁, hch⟩ := any_toOption_iff.mp hrun
  obtain ⟨hm, ho⟩ := Bool.and_eq_true_iff.mp hch
  obtain ⟨t₂, ht₂⟩ := Option.isSome_iff_exists.mp hm
  obtain ⟨direct, hd⟩ := Option.isSome_iff_exists.mp hd
  have ht₂ := mem_toOption_iff.mp ht₂
  have hd := mem_toOption_iff.mp hd
  refine ⟨t₁, t₂, direct, ht₁, hd, ht₂,
    (TemplateServices.modifyBlockTemplate_iff sampleTemplateServices
    (by decide) (rewardedState outsideWindow) (minerOf 11) (minerOf 12) [paymentTx] [5] 10 10 20 t₁
    t₂ direct ht₁ hd ht₂).mpr (.inl fun coinbase hc => ?_)⟩
  rw [Option.mem_def.mp hc] at ho
  simpa using ho

-- With a reward the payload is the data of the first output, and the segment root stays that of the
-- old one.
theorem adapted_template_keeps_segment_root : ∃ t₁ t₂ direct,
    sampleTemplate ∅ 11 = .ok t₁ ∧ sampleTemplate ∅ 12 = .ok direct ∧
    sampleTemplateServices.modifyBlockTemplate (minerOf 12) t₁ 20 = .ok t₂ ∧
    t₂.block.header.segmentRoot ≠ direct.block.header.segmentRoot ∧ t₂.block.header.segmentRoot ≠
    sampleTemplateServices.digests.computeBlockSegmentRoot t₂.block.transactions := by
  have hrun : (sampleTemplate ∅ 11).toOption.any
      (fun t₁ => (sampleTemplate ∅ 12).toOption.any fun direct =>
      (sampleTemplateServices.modifyBlockTemplate (minerOf 12) t₁ 20).toOption.any fun t₂ =>
        decide (t₂.block.header.segmentRoot ≠ direct.block.header.segmentRoot) &&
          decide (t₂.block.header.segmentRoot ≠
            sampleTemplateServices.digests.computeBlockSegmentRoot t₂.block.transactions)) =
                true := by
    decide +kernel
  obtain ⟨t₁, ht₁, hrun⟩ := any_toOption_iff.mp hrun
  obtain ⟨direct, hd, hrun⟩ := any_toOption_iff.mp hrun
  obtain ⟨t₂, ht₂, hrun⟩ := any_toOption_iff.mp hrun
  simp only [Bool.and_eq_true, decide_eq_true_eq] at hrun
  exact ⟨t₁, t₂, direct, ht₁, hd, ht₂, hrun.1, hrun.2⟩

end Adapted

end Spora
