import Mathlib.Init

namespace MiningpoolObserver.Tags

def COIN : UInt64 := 100000000

/-- vByte -/
def THRESHOLD_TRANSACTION_CONSIDERED_LARGE : UInt64 := 2500
/-- sat/vByte -/
def THRESHOLD_FEERATE_CONSIDERED_HIGH : Float32 := 1000.0
/-- sat -/
def THRESHOLD_OUTPUT_CONSIDERED_DUST : UInt64 := 1000
/-- sat (100 BTC) -/
def THRESHOLD_VALUE_CONSIDERED_HIGH : UInt64 := 100 * COIN
def THRESHOLD_SIGOPS_CONSIDERED_MANY : UInt64 := 1000
def THRESHOLD_SIGOP_LIMIT_CLOSE : UInt64 := 70000

inductive TxTag where
  | fromSanctioned | toSanctioned | conflicting
  | large | zeroFee | highFeerate | highValue | manySigops
  | young
  | coinbase | coinjoin | segWit | taproot | multisig | rbfSignaling | opReturn | counterParty
  | rareScriptType | lockByHeight | lockByTimestamp | consolidation | dustOutput | inscription
deriving DecidableEq

/-- The code kept in the database. Thousands are severity classes. -/
def TxTag.code : TxTag → Int
  | .fromSanctioned => 1099
  | .toSanctioned => 1100
  | .conflicting => 1110
  | .large => 2100
  | .zeroFee => 2110
  | .highFeerate => 2120
  | .highValue => 2130
  | .manySigops => 2140
  | .young => 3110
  | .coinbase => 4099
  | .coinjoin => 4100
  | .segWit => 4110
  | .taproot => 4111
  | .multisig => 4120
  | .rbfSignaling => 4130
  | .opReturn => 4140
  | .counterParty => 4141
  | .rareScriptType => 4142
  | .lockByHeight => 4150
  | .lockByTimestamp => 4160
  | .consolidation => 4170
  | .dustOutput => 4180
  | .inscription => 4190

theorem TxTag.code_injective : Function.Injective TxTag.code := by
  intro a b h
  cases a <;> cases b <;> first | rfl | (simp [TxTag.code] at h)

def TxTag.tryFrom (v : Int) : Option TxTag :=
  if v = TxTag.fromSanctioned.code then some .fromSanctioned
  else if v = TxTag.toSanctioned.code then some .toSanctioned
  else if v = TxTag.coinbase.code then some .coinbase
  else if v = TxTag.large.code then some .large
  else if v = TxTag.zeroFee.code then some .zeroFee
  else if v = TxTag.highFeerate.code then some .highFeerate
  else if v = TxTag.segWit.code then some .segWit
  else if v = TxTag.taproot.code then some .taproot
  else if v = TxTag.multisig.code then some .multisig
  else if v = TxTag.rbfSignaling.code then some .rbfSignaling
  else if v = TxTag.opReturn.code then some .opReturn
  else if v = TxTag.counterParty.code then some .counterParty
  else if v = TxTag.rareScriptType.code then some .rareScriptType
  else if v = TxTag.coinjoin.code then some .coinjoin
  else if v = TxTag.lockByHeight.code then some .lockByHeight
  else if v = TxTag.lockByTimestamp.code then some .lockByTimestamp
  else if v = TxTag.consolidation.code then some .consolidation
  else if v = TxTag.dustOutput.code then some .dustOutput
  else if v = TxTag.highValue.code then some .highValue
  else if v = TxTag.conflicting.code then some .conflicting
  else if v = TxTag.young.code then some .young
  else if v = TxTag.manySigops.code then some .manySigops
  else if v = TxTag.inscription.code then some .inscription
  else none

@[simp] theorem TxTag.tryFrom_code (tag : TxTag) : TxTag.tryFrom tag.code = some tag := by
  cases tag <;> rfl

inductive BlockTag where
  | sigopsLimitClose
  | taprootSignaling
deriving DecidableEq

def BlockTag.code : BlockTag → Int
  | .sigopsLimitClose => 2100
  | .taprootSignaling => 3100

def BlockTag.tryFrom (v : Int) : Option BlockTag :=
  if v = BlockTag.taprootSignaling.code then some .taprootSignaling
  else if v = BlockTag.sigopsLimitClose.code then some .sigopsLimitClose
  else none

@[simp] theorem BlockTag.tryFrom_code (tag : BlockTag) :
    BlockTag.tryFrom tag.code = some tag := by
  cases tag <;> rfl

end MiningpoolObserver.Tags
