import Miningcore.Foundation.Text
import Mathlib.Data.Rat.Defs

/-! The parts of the pool configuration that the payment processing and the stratum
server read. -/

namespace Miningcore.Configuration

inductive CoinType
  | BTC | BCH | LTC | DOGE | XMR | GRS | DGB | NMC | VIA | PPC | ZEC | ZCL | ZEN | ETH | ETC | EXP
  | DASH | MONA | VTC | BTG | GLT | ELLA | AEON | STAK | ETN | MOON | XVG | GBX | CRC | BTCP | CLO
  | FLO | PAK | CANN | RVN | PGN | EXCC
deriving DecidableEq

structure RewardRecipient where
  address : Text
  percentage : ℚ
  type : Option Text
deriving DecidableEq

/-- `PayoutScheme` with the configuration of the scheme. -/
inductive PayoutScheme
  | pplns (factor : Option ℚ)
  | solo
deriving DecidableEq

structure PoolConfig where
  id : Text
  coin : CoinType
  address : Text
  rewardRecipients : List RewardRecipient
  payoutScheme : PayoutScheme
deriving DecidableEq

/-- `PoolPaymentProcessingConfig`, with what the payout handlers read of its extra fields.
The minimum for a payment id is missing only if there are no extra fields. -/
structure PoolPaymentProcessingConfig where
  minimumPayment : ℚ
  walletPassword : Option Text
  minersPayTxFees : Bool
  minimumPaymentToPaymentId : Option ℚ
deriving DecidableEq

/-- `NotEmpty`: an empty text fails, and so does one of white space. -/
def notEmpty (value : Text) : Bool := value.any fun unit => !unit.isWhiteSpace

/-- The rules of `PoolConfigValidator` for these fields. There is none for the reward
recipients or the payout scheme. -/
def PoolConfig.validates (pool : PoolConfig) : Bool := notEmpty pool.id && notEmpty pool.address

structure VarDiffConfig where
  minDiff : ℚ
  maxDiff : Option ℚ
  maxDelta : Option ℚ
  targetTime : ℚ
  retargetTime : ℚ
  variancePercent : ℚ

structure PoolEndpoint where
  difficulty : ℚ
  varDiff : Option VarDiffConfig

/-- `VarDiffConfigValidator`. There is no rule for the minimum. -/
def VarDiffConfig.validates (config : VarDiffConfig) : Bool :=
  config.maxDiff.all (fun maxDiff => config.minDiff ≤ maxDiff) &&
    (1 ≤ config.variancePercent && config.variancePercent ≤ 100) &&
    0 < config.targetTime && 0 < config.retargetTime

/-- The rules of `PoolEndpointValidator` for these fields. -/
def PoolEndpoint.validates (endpoint : PoolEndpoint) : Bool :=
  0 < endpoint.difficulty && endpoint.varDiff.all VarDiffConfig.validates

end Miningcore.Configuration
