import Spora.Rpc.Requests

namespace Spora

open Outcome List

namespace Addresses

inductive AddressError
  | invalidPrefix (text : List Char)
  | missingPrefix
  | invalidVersion (value : UInt8)
  | decodingError (c : Char)
  | badChecksum
  | badPayload (expected actual : Nat) (version : UInt8)
  | invalidAddress
deriving DecidableEq, Repr

namespace Version

def toByte : Version → UInt8
  | .stdSingle => 0
  | .stdSingleECDSA => 1
  | .account => 2
  | .fullScript => 3

def expected : Version → Nat
  | .stdSingle => 20
  | .stdSingleECDSA => 20
  | .account => 32
  | .fullScript => 34

end Version

inductive StandardScriptError
  | nonStandardLockScript
  | address (e : AddressError)
deriving DecidableEq, Repr

end Addresses

open Addresses

deriving instance DecidableEq for Address

def Address.new (prefix_ : Prefix) (version : Version) (payload : Bytes) :
    Except AddressError Address :=
  if valid : isValidPayload version payload = true then .ok ⟨prefix_, version, payload, valid⟩
  else .error (.badPayload version.expected payload.length version.toByte)

def encodeFullScriptPayload (script : Script) : Bytes :=
  leBytes 32 script.codeHash ++
    (leBytes 1 script.hashType ++ (encodeVarint script.args.length ++ script.args))

def extractAddressFromScript (engine : ScriptEngine) (script : Script) (prefix_ : Prefix) :
    Except StandardScriptError Address :=
  match engine.classifyScript script with
  | .stdSingle => (Address.new prefix_ .stdSingle script.args).mapError .address
  | .stdSingleECDSA => (Address.new prefix_ .stdSingleECDSA script.args).mapError .address
  | .account => (Address.new prefix_ .account script.args).mapError .address
  | .fullScript =>
    (Address.new prefix_ .fullScript (encodeFullScriptPayload script)).mapError .address
  | .nonStandard => .error .nonStandardLockScript

-- The scripts that a full-script payload can hold.
structure Script.Addressable (script : Script) : Prop where
  encodable : script.Encodable
  hashType : script.hashType ≤ 4
  args : script.args.length ≤ MAX_FULL_SCRIPT_ARGS_LEN

-- A length within the bound takes one or two bytes.
theorem decodeVarint_encodeVarint {n} (hn : n ≤ MAX_FULL_SCRIPT_ARGS_LEN) (rest : Bytes) :
    decodeVarint (encodeVarint n ++ rest) = some (n, (encodeVarint n).length) := by
  have hbo : n < 16384 := Nat.lt_of_le_of_lt hn (by decide)
  have hb {m : Nat} (hm : m < 256) : (UInt8.ofNat m).toNat = m := UInt8.toNat_ofNat_of_lt' hm
  by_cases hsm : n / 128 = 0
  · have he : encodeVarint n = [UInt8.ofNat n] := by simp [encodeVarint, encodeVarintFrom, hsm]
    have hv : n % 128 % 18446744073709551616 = n := by omega
    have hlt : n < 128 := by omega
    simp [decodeVarint, decodeVarintFrom, he, hb (by omega : n < 256), hv, hlt]
  · have he : encodeVarint n = [UInt8.ofNat (n % 128 + 128), UInt8.ofNat (n / 128)] := by
      have hl : n / 128 / 128 = 0 := by omega
      simp [encodeVarint, encodeVarintFrom, hsm, hl]
    have hf := hb (by omega : n % 128 + 128 < 256)
    have hs := hb (by omega : n / 128 < 256)
    generalize UInt8.ofNat (n % 128 + 128) = first at he hf
    generalize UInt8.ofNat (n / 128) = second at he hs
    have hv : n % 128 ||| n / 128 * 128 = n := by
      have hor := Nat.two_pow_add_eq_or_of_lt (i := 7) (Nat.mod_lt n (by decide)) (n / 128)
      rw [Nat.or_comm, Nat.mul_comm]
      exact hor.symm.trans (Nat.div_add_mod n 128)
    have hlow : n % 128 % 18446744073709551616 = n % 128 := by omega
    have hh : n / 128 % 128 * 128 % 18446744073709551616 = n / 128 * 128 := by omega
    have hlt : n / 128 < 128 := by omega
    simp [decodeVarint, decodeVarintFrom, he, hf, hs, hlow, hh, hv, hlt]

theorem encodeVarint_of_decodeVarintFrom {bytes rest value shift i n k}
    (h : decodeVarintFrom bytes value shift i rest = some (n, k)) :
    encodeVarint n = bytes.take k := by
  induction rest generalizing value shift i with
  | nil => cases h
  | cons byte rest ih =>
    unfold decodeVarintFrom at h
    dsimp only at h
    split_ifs at h with _ _ hc
    · cases (Option.some.inj h)
      exact hc
    · exact ih h

-- The accepted payloads are those that are written.
theorem decodeFullScriptPayload_eq_some_iff {payload scr} :
    decodeFullScriptPayload payload = some scr ↔ payload = encodeFullScriptPayload scr ∧
    scr.Addressable := by
  constructor
  · intro h
    have he := encodable_decodeFullScriptPayload h
    unfold decodeFullScriptPayload at h
    dsimp only at h
    split_ifs at h with hs hty
    obtain ⟨⟨argsLen, varintBytes⟩, hv, h⟩ := Option.bind_eq_some_iff.mp h
    dsimp only at h
    split_ifs at h with hlo hl
    cases h
    have ha : (payload.drop (33 + varintBytes)).length = argsLen := by
      rw [length_drop]
      omega
    refine ⟨?_, he, Nat.not_lt.mp hty, ha.trans_le (Nat.not_lt.mp hlo)⟩
    have hco := leBytes_leNat (payload.take 32)
    have hb := leBytes_leNat ((payload.drop 32).take 1)
    rw [length_take, Nat.min_eq_left (by omega)] at hco
    rw [length_take, length_drop, Nat.min_eq_left (by omega)] at hb
    have hr : payload.drop 33 = (payload.drop 32).drop 1 := by rw [drop_drop]
    rw [encodeFullScriptPayload, hco, hb, ha, encodeVarint_of_decodeVarintFrom hv, ← drop_drop,
      take_append_drop, hr, take_append_drop, take_append_drop]
  · rintro ⟨rfl, ⟨hco, hty⟩, hh, ha⟩
    have hc := length_leBytes 32 scr.codeHash
    have ht := length_leBytes 1 scr.hashType
    have hv : encodeVarint scr.args.length ≠ [] := by
      unfold encodeVarint encodeVarintFrom
      split_ifs <;> simp
    have hp := length_pos_of_ne_nil hv
    have hl : (encodeFullScriptPayload scr).length =
        33 + (encodeVarint scr.args.length).length + scr.args.length := by
      simp only [encodeFullScriptPayload, length_append, hc, ht]
      omega
    have hta : (encodeFullScriptPayload scr).drop 32 =
        leBytes 1 scr.hashType ++ (encodeVarint scr.args.length ++ scr.args) := drop_left' hc
    have hre : leNat (((encodeFullScriptPayload scr).drop 32).take 1) = scr.hashType := by
      rw [hta, take_left' ht, leNat_leBytes hty]
    have hr : (encodeFullScriptPayload scr).drop 33 = encodeVarint scr.args.length ++ scr.args := by
      rw [← drop_drop (i := 1) (j := 32), hta, drop_left' ht]
    unfold decodeFullScriptPayload
    dsimp only
    rw [if_neg (by omega), hre, if_neg (by omega), hr, decodeVarint_encodeVarint ha,
      Option.bind_some, if_neg (Nat.not_lt.mpr ha), if_neg (by omega), ← drop_drop, hr,
        drop_left' rfl,
      encodeFullScriptPayload, take_left' hc, leNat_leBytes hco]

theorem new_of_valid (prefix_) {version payload} (h : isValidPayload version payload = true) :
    Address.new prefix_ version payload = .ok ⟨prefix_, version, payload, h⟩ := dif_pos h

section Extraction

-- Classification compares with the code hashes of the locks.
structure BuiltinLocks.Classified (locks : BuiltinLocks) (engine : ScriptEngine) : Prop where
  schnorr : engine.builtinSchnorrCodeHash = locks.codeHash .stdSingle
  ecdsa : engine.builtinEcdsaCodeHash = locks.codeHash .stdSingleECDSA
  account : engine.builtinAccountCodeHash = locks.codeHash .account
  distinct : locks.codeHash .stdSingle ≠ locks.codeHash .stdSingleECDSA

variable {locks : BuiltinLocks} {engine : ScriptEngine} (hlocks : locks.Classified engine)

include hlocks

theorem extractAddress_of_builtin {address} (hversion : address.version ≠ .fullScript) :
    extractAddressFromScript engine (addressToLockScript locks address) address.prefix_ =
    .ok address := by
  obtain ⟨prefix_, version, payload, valid⟩ := address
  have hnew := new_of_valid prefix_ valid
  unfold extractAddressFromScript ScriptEngine.classifyScript
  rw [hlocks.schnorr, hlocks.ecdsa, hlocks.account]
  cases version with
  | fullScript => exact absurd rfl hversion
  | stdSingle | stdSingleECDSA | account =>
    have hl := eq_of_beq valid
    simpa [addressToLockScript, Addresses.HASH_TYPE_TYPE, Spora.HASH_TYPE_TYPE, hl,
      hlocks.distinct.symm] using mapError_eq_ok_iff.mpr hnew

theorem extractAddress_of_addressable {scr} (h : scr.Addressable) (prefix_) :
    ∃ address : Address, extractAddressFromScript engine scr prefix_ = .ok address ∧
    address.prefix_ = prefix_ ∧ addressToLockScript locks address = scr := by
  obtain ⟨codeHash, hashType, args⟩ := scr
  unfold extractAddressFromScript ScriptEngine.classifyScript
  rw [hlocks.schnorr, hlocks.ecdsa, hlocks.account]
  split_ifs with hs he ha hf
  · obtain ⟨rfl, rfl, hl⟩ := hs
    exact ⟨_, mapError_eq_ok_iff.mpr (new_of_valid _ (by exact beq_of_eq hl)), rfl, rfl⟩
  · obtain ⟨rfl, rfl, hl⟩ := he
    exact ⟨_, mapError_eq_ok_iff.mpr (new_of_valid _ (by exact beq_of_eq hl)), rfl, rfl⟩
  · obtain ⟨rfl, rfl, hl⟩ := ha
    exact ⟨_, mapError_eq_ok_iff.mpr (new_of_valid _ (by exact beq_of_eq hl)), rfl, rfl⟩
  · have hd := decodeFullScriptPayload_eq_some_iff.mpr ⟨rfl, h⟩
    refine ⟨_, mapError_eq_ok_iff.mpr (new_of_valid _ (by exact Option.isSome_of_eq_some hd)),
      rfl, ?_⟩
    exact congrArg (Option.getD · ⟨0, 0, []⟩) hd
  · exact absurd h.hashType hf

omit hlocks

theorem decode_payload (locks) {address} (hversion : address.version = .fullScript) :
    decodeFullScriptPayload address.payload = some (addressToLockScript locks address) := by
  obtain ⟨prefix_, version, payload, valid⟩ := address
  subst hversion
  obtain ⟨scr, hs⟩ := Option.isSome_iff_exists.mp valid
  rw [addressToLockScript, hs, Option.getD_some]

theorem addressable_addressToLockScript (address) :
    (addressToLockScript locks address).Addressable := by
  by_cases hv : address.version = .fullScript
  · exact (decodeFullScriptPayload_eq_some_iff.mp (decode_payload locks hv)).2
  · have he := encodable_addressToLockScript locks address
    obtain ⟨prefix_, version, payload, valid⟩ := address
    cases version with
    | fullScript => exact absurd rfl hv
    | stdSingle | stdSingleECDSA | account =>
      refine ⟨he, Nat.le_of_ble_eq_true rfl, ?_⟩
      rw [addressToLockScript, eq_of_beq valid]
      decide

-- A full-script address that spells out the lock of a built-in one.
structure Address.SpellsOut (locks : BuiltinLocks) (address other : Address) : Prop where
  version : address.version = .fullScript
  builtin : other.version ≠ .fullScript
  prefix_ : address.prefix_ = other.prefix_
  payload : address.payload = encodeFullScriptPayload (addressToLockScript locks other)

include hlocks

theorem addresses_correspond : (∀ address : Address, (∀ other, ¬ address.SpellsOut locks other) →
      extractAddressFromScript engine (addressToLockScript locks address) address.prefix_ =
      .ok address) ∧ (∀ address other : Address, address.SpellsOut locks other →
      extractAddressFromScript engine (addressToLockScript locks address) address.prefix_ =
      .ok other) ∧ ∀ (script : Script) (prefix_ : Prefix), script.Addressable → ∃ address : Address,
    extractAddressFromScript engine script prefix_ = .ok address ∧
    addressToLockScript locks address = script := by
  refine ⟨fun address hn => ?_, fun address other h => ?_, fun script prefix_ h => ?_⟩
  · by_cases hv : address.version = .fullScript
    · have hp := (decodeFullScriptPayload_eq_some_iff.mp (decode_payload locks hv)).1
      obtain ⟨other, he, hpr, hl⟩ :=
        extractAddress_of_addressable hlocks (addressable_addressToLockScript address)
          address.prefix_
      rw [← hl] at hp
      have ho : other.version = .fullScript := by
        by_contra ho
        exact hn other ⟨hv, ho, hpr.symm, hp⟩
      rw [← (decodeFullScriptPayload_eq_some_iff.mp (decode_payload locks ho)).1] at hp
      rw [he]
      cases address
      cases other
      simp_all
    · exact extractAddress_of_builtin hlocks hv
  · have hd :=
      decodeFullScriptPayload_eq_some_iff.mpr ⟨h.payload, addressable_addressToLockScript other⟩
    have hl := Option.some.inj ((decode_payload locks h.version).symm.trans hd)
    rw [hl, h.prefix_]
    exact extractAddress_of_builtin hlocks h.builtin
  · obtain ⟨address, he, -, hl⟩ := extractAddress_of_addressable hlocks h prefix_
    exact ⟨address, he, hl⟩

end Extraction

def sampleLocks : BuiltinLocks where
  codeHash
    | .stdSingle => 11
    | .stdSingleECDSA => 12
    | .account => 13
    | .fullScript => 0
  codeHash_lt version := by cases version <;> decide

theorem sampleLocks_classified : sampleLocks.Classified (.sample .sample) :=
  ⟨rfl, rfl, rfl, by decide⟩

def keyAddress : Address := ⟨.mainnet, .stdSingle, replicate 20 5, by decide⟩

-- The lock of `keyAddress` spelled out, and a lock of no built-in template.
def spelledAddress : Address where
  prefix_ := .mainnet
  version := .fullScript
  payload := encodeFullScriptPayload ⟨11, 1, replicate 20 5⟩
  valid := by decide +kernel

def scriptAddress : Address where
  prefix_ := .mainnet
  version := .fullScript
  payload := encodeFullScriptPayload ⟨7, 1, [1, 2, 3]⟩
  valid := by decide +kernel

theorem addresses_correspond_sample :
    extractAddressFromScript (.sample .sample) (addressToLockScript sampleLocks keyAddress) .mainnet
    = .ok keyAddress ∧
    extractAddressFromScript (.sample .sample) (addressToLockScript sampleLocks scriptAddress)
    .mainnet = .ok scriptAddress ∧
    extractAddressFromScript (.sample .sample) (addressToLockScript sampleLocks spelledAddress)
    .mainnet = .ok keyAddress ∧
    ∃ address : Address, extractAddressFromScript (.sample .sample) ⟨9, 2, [4, 5]⟩ .mainnet =
    .ok address ∧ addressToLockScript sampleLocks address = ⟨9, 2, [4, 5]⟩ := by
  obtain ⟨hown, hspelled, hscript⟩ := addresses_correspond sampleLocks_classified
  refine ⟨hown keyAddress ?_, hown scriptAddress ?_,
    hspelled spelledAddress keyAddress ⟨rfl, by decide, rfl, rfl⟩,
    hscript _ _ ⟨⟨by simp [Fits], by simp [Fits]⟩, by decide, by decide⟩⟩
  · rintro other ⟨hversion, -⟩
    cases hversion
  · -- a built-in lock has another code hash
    rintro other ⟨-, hbuiltin, -, hpayload⟩
    have hdecode :=
      decodeFullScriptPayload_eq_some_iff.mpr ⟨hpayload, addressable_addressToLockScript other⟩
    have hlock : addressToLockScript sampleLocks other = ⟨7, 1, [1, 2, 3]⟩ :=
      Option.some.inj (hdecode.symm.trans (by decide +kernel))
    obtain ⟨prefix_, version, payload, valid⟩ := other
    cases version with
    | fullScript => exact hbuiltin rfl
    | stdSingle | stdSingleECDSA | account => cases hlock

theorem spelledAddress_extracts_other :
    extractAddressFromScript (.sample .sample) (addressToLockScript sampleLocks spelledAddress)
    .mainnet ≠ .ok spelledAddress := by decide +kernel

def CODE_LENGTH : Nat := 1023

def CHECKSUM_LENGTH : Nat := 6

-- What the codec of addresses takes from the bech32 library, and what is assumed of it.
structure Bech32m where
  toChar : Fin 32 → Char
  fromChar : Char → Option (Fin 32)
  bytesToFes : Bytes → List (Fin 32)
  fesToBytes : List (Fin 32) → Bytes
  checksum : List (Fin 32) → List (Fin 32)
  isTarget : List (Fin 32) → Bool
  fromChar_toChar : ∀ fe, fromChar (toChar fe) = some fe
  utf8Size_toChar : ∀ fe, (toChar fe).utf8Size = 1
  length_bytesToFes : ∀ bytes, (bytesToFes bytes).length = (8 * bytes.length + 4) / 5
  fesToBytes_bytesToFes : ∀ bytes, fesToBytes (bytesToFes bytes) = bytes
  length_checksum : ∀ fes, (checksum fes).length = CHECKSUM_LENGTH
  isTarget_checksum : ∀ fes, isTarget (fes ++ checksum fes) = true

def Addresses.Prefix.asStr : Prefix → List Char
  | .mainnet => "spora".toList
  | .testnet => "spora0".toList
  | .simnet => "sporasim".toList
  | .devnet => "sporadev".toList

def Addresses.Prefix.tryFrom (text : List Char) : Except AddressError Prefix :=
  if text = "spora".toList then .ok .mainnet
  else if text = "spora0".toList then .ok .testnet
  else if text = "sporasim".toList then .ok .simnet
  else if text = "sporadev".toList then .ok .devnet
  else .error (.invalidPrefix text)

def Addresses.Version.tryFrom (value : UInt8) : Except AddressError Version :=
  if value = 0 then .ok .stdSingle
  else if value = 1 then .ok .stdSingleECDSA
  else if value = 2 then .ok .account
  else if value = 3 then .ok .fullScript
  else .error (.invalidVersion value)

namespace Bech32m

variable (lib : Bech32m)

def prefixFes (prefix_ : Prefix) : List (Fin 32) :=
  lib.bytesToFes (prefix_.asStr.map fun c => UInt8.ofNat c.toNat)

def validateChecksum (prefix_ : Prefix) (data : List Char) : Except AddressError (List (Fin 32)) :=
  do
  let length := (data.map Char.utf8Size).sum
  ensure (length ≤ CODE_LENGTH) .invalidAddress
  ensure (CHECKSUM_LENGTH ≤ length) .badChecksum
  let fes ← data.mapM fun c => okOr (lib.fromChar c) (.decodingError c)
  ensure (lib.isTarget (lib.prefixFes prefix_ ++ fes)) .badChecksum
  return fes

def encodePayload (address : Address) : List Char :=
  let data := lib.bytesToFes (address.version.toByte :: address.payload)
  (data ++ lib.checksum (lib.prefixFes address.prefix_ ++ data)).map lib.toChar

def decodePayload (prefix_ : Prefix) (address : List Char) : Except AddressError Address := do
  let fes ← lib.validateChecksum prefix_ address
  match lib.fesToBytes (fes.take ((address.map Char.utf8Size).sum - CHECKSUM_LENGTH)) with
  | [] => .error .invalidAddress
  | version :: payload => Address.new prefix_ (← Version.tryFrom version) payload

def stringFrom (address : Address) : List Char :=
  address.prefix_.asStr ++ ':' :: lib.encodePayload address

def tryFrom (value : List Char) : Except AddressError Address :=
  match value.span (· ≠ ':') with
  | (_, []) => .error .missingPrefix
  | (text, _ :: payload) => do lib.decodePayload (← Prefix.tryFrom text) payload

variable (address : Address)

theorem utf8Size_encodePayload : ((lib.encodePayload address).map Char.utf8Size).sum =
    (8 * (address.payload.length + 1) + 4) / 5 + CHECKSUM_LENGTH := by
  have hone : Char.utf8Size ∘ lib.toChar = fun _ => 1 := funext lib.utf8Size_toChar
  simp [encodePayload, map_map, hone, lib.length_bytesToFes, lib.length_checksum]

theorem validateChecksum_encodePayload (h : address.payload.length ≤ 634) :
    lib.validateChecksum address.prefix_ (lib.encodePayload address) =
    .ok (lib.bytesToFes (address.version.toByte :: address.payload) ++
      lib.checksum (lib.prefixFes address.prefix_ ++
      lib.bytesToFes (address.version.toByte :: address.payload))) := by
  have hr (fes : List (Fin 32)) : (fes.map lib.toChar).mapM
      (fun c => okOr (lib.fromChar c) (AddressError.decodingError c)) = .ok fes := by
    induction fes with
    | nil => rfl
    | cons fe fes ih => simp [lib.fromChar_toChar, ih]
  have hc : (8 * (address.payload.length + 1) + 4) / 5 + CHECKSUM_LENGTH ≤ CODE_LENGTH := by
    rw [CODE_LENGTH, CHECKSUM_LENGTH]
    omega
  unfold validateChecksum
  rw [lib.utf8Size_encodePayload, encodePayload, hr]
  simp [ensure, hc, ← append_assoc, lib.isTarget_checksum]

theorem tryFrom_stringFrom :
    lib.tryFrom (lib.stringFrom address) = lib.decodePayload address.prefix_
    (lib.encodePayload address) := by
  unfold tryFrom stringFrom
  generalize lib.encodePayload address = text
  cases address.prefix_ <;> rfl

variable {lib address} in
theorem length_of_tryFrom_stringFrom (h : lib.tryFrom (lib.stringFrom address) = .ok address) :
    address.payload.length ≤ 634 := by
  rw [tryFrom_stringFrom] at h
  obtain ⟨_, h, -⟩ := bind_ok h
  obtain ⟨_, h, -⟩ := bind_ok h
  rw [ensure_eq_ok_iff, lib.utf8Size_encodePayload, CODE_LENGTH, CHECKSUM_LENGTH] at h
  omega

theorem tryFrom_stringFrom_iff :
    lib.tryFrom (lib.stringFrom address) = .ok address ↔ address.payload.length ≤ 634 := by
  constructor
  · exact length_of_tryFrom_stringFrom
  · intro h
    rw [tryFrom_stringFrom, decodePayload]
    rw [lib.validateChecksum_encodePayload address h, lib.utf8Size_encodePayload,
      Nat.add_sub_cancel, ok_bind, take_left' (by simp [lib.length_bytesToFes]),
        lib.fesToBytes_bytesToFes]
    have hv : Version.tryFrom address.version.toByte = .ok address.version := by
      cases address.version <;> rfl
    simp only [hv, ok_bind]
    exact dif_pos address.valid

def toFes : Nat → Nat → List (Fin 32)
  | 0, _ => []
  | width + 1, n => Fin.ofNat 32 n :: toFes width (n / 32)

theorem length_toFes (width n : Nat) : (toFes width n).length = width := by
  induction width generalizing n with
  | zero => rfl
  | succ width ih => simp [toFes, ih]

theorem foldr_toFes {width n} (h : n < 32 ^ width) :
    (toFes width n).foldr (fun fe acc => fe.val + 32 * acc) 0 = n := by
  induction width generalizing n with
  | zero => simpa [toFes, eq_comm] using h
  | succ width ih =>
    rw [Nat.pow_succ'] at h
    rw [toFes, foldr_cons, ih (Nat.div_lt_of_lt_mul h)]
    exact Nat.mod_add_div n 32

def charset : List Char := "qpzry9x8gf2tvdw0s3jn54khce6mua7l".toList

-- A library as assumed, with a checksum that says nothing.
def sample : Bech32m where
  toChar fe := charset.getD fe 'q'
  fromChar c := (finRange 32).find? fun fe => charset.getD fe 'q' = c
  bytesToFes bytes := toFes ((8 * bytes.length + 4) / 5) (leNat bytes)
  fesToBytes fes := leBytes (5 * fes.length / 8) (fes.foldr (fun fe acc => fe.val + 32 * acc) 0)
  checksum _ := replicate 6 0
  isTarget _ := true
  fromChar_toChar := by decide +kernel
  utf8Size_toChar := by decide +kernel
  length_bytesToFes bytes := length_toFes _ _
  fesToBytes_bytesToFes bytes := by
    have hfits : leNat bytes < 32 ^ ((8 * bytes.length + 4) / 5) := by
      refine (fits_leNat bytes).trans_le ?_
      rw [show 256 = 2 ^ 8 from rfl, show 32 = 2 ^ 5 from rfl, ← Nat.pow_mul, ← Nat.pow_mul]
      exact Nat.pow_le_pow_right (by decide) (by omega)
    have hlength : 5 * ((8 * bytes.length + 4) / 5) / 8 = bytes.length := by omega
    rw [length_toFes, hlength, foldr_toFes hfits, leBytes_leNat]
  length_checksum _ := rfl
  isTarget_checksum _ := rfl

def longAddress : Address where
  prefix_ := .mainnet
  version := .fullScript
  payload := encodeFullScriptPayload ⟨0, 0, replicate 600 0⟩
  valid := by decide +kernel

theorem long_address_does_not_parse :
    sample.tryFrom (sample.stringFrom longAddress) ≠ .ok longAddress := by
  intro h
  exact absurd (length_of_tryFrom_stringFrom h) (by decide +kernel)

end Bech32m

end Spora
