import Miningcore.Foundation.Rounding
import Miningcore.Payments.PayoutHandlerBase

/-! `PayoutAsync` of the handlers that pay with `sendmany`: `ExchangeCoinPayoutHandler`,
`BitcoinPayoutHandler` and the handlers for Dash and Flo. They differ in the parameters of
the command, and the one for Flo does not unlock the wallet. -/

namespace Miningcore.Payments

open Miningcore.Configuration DaemonInterface Interaction Persistence

structure PayoutContext where
  pool : PoolConfig
  poolName : Option Text
  clusterName : Option Text
  processing : PoolPaymentProcessingConfig

def roundAmount (amount : ℚ) : ℚ := roundHalfEven (amount * 10 ^ 8) / 10 ^ 8

example : roundAmount (15 / 10 ^ 9) = 2 / 10 ^ 8 ∧ roundAmount (25 / 10 ^ 9) = 2 / 10 ^ 8 := by
  decide +kernel

/-- `ToDictionary`: a key that occurs twice throws. -/
def toDictionary (entries : List (Text × ℚ)) : Except Exception (List (Text × ℚ)) := do
  throwIf (¬(entries.map Prod.fst).Nodup)
    (.argument "An item with the same key has already been added.")
  return entries

def payable (balances : List Balance) : List Balance :=
  balances.filter fun balance => 0 < balance.amount

/-- The parameter `amounts` of `sendmany`. -/
def sendManyAmounts (balances : List Balance) : Except Exception (List (Text × ℚ)) :=
  toDictionary ((payable balances).map fun balance =>
    (balance.address, roundAmount balance.amount))

def PayoutContext.comment (context : PayoutContext) : Text :=
  ((context.poolName.or context.clusterName).getD (text "MiningCore")).trim ++ text " Payment"

def walletUnlockNeeded : Int := -13

def lockWallet (didUnlockWallet : Bool) : Payout Unit :=
  if didUnlockWallet then do
    let _ ← executeCmd Value.asToken .walletLock []
    return ()
  else return ()

/-- `WalletPassphrase`, after which the transfer is tried again. -/
def unlockWallet (context : PayoutContext) (tryAgain : Payout Unit) : Payout Unit :=
  match context.processing.walletPassword with
  | none => return ()
  | some [] => return ()
  | some password => do
      let unlockResult ← executeCmd Value.asToken (.walletPassphrase password 5) []
      if unlockResult.error.isNone then tryAgain else return ()

/-- What follows the label `tryTransfer`. The wallet is unlocked at most once. -/
def tryTransfer (context : PayoutContext) (args : List Argument) (balances : List Balance)
    (didUnlockWallet : Bool) (tryAgain : Payout Unit) : Payout Unit := do
  let result ← executeCmd Value.asString (.sendMany args) (payable balances)
  match result.error with
  | none => do
      lockWallet didUnlockWallet
      Program.act ⟨balances, result.response⟩
  | some error =>
      if error.code = walletUnlockNeeded ∧ !didUnlockWallet then unlockWallet context tryAgain
      else return ()

def payoutWithUnlock (context : PayoutContext) (args : List (Text × ℚ) → List Argument)
    (balances : List Balance) : Payout Unit := do
  let amounts ← Program.attempt (sendManyAmounts balances)
  if amounts.isEmpty then return ()
  else
    tryTransfer context (args amounts) balances false
      (tryTransfer context (args amounts) balances true (return ()))

def sendManyArgs (account : Text) (context : PayoutContext) (amounts : List (Text × ℚ)) :
    List Argument :=
  if context.processing.minersPayTxFees then
    [.text account, .amounts amounts, .number 1, .text context.comment,
      .addresses (amounts.map Prod.fst)]
  else [.text account, .amounts amounts]

def ExchangeCoin.payout (context : PayoutContext) : List Balance → Payout Unit :=
  payoutWithUnlock context (sendManyArgs (text "default") context)

def Bitcoin.payout (context : PayoutContext) : List Balance → Payout Unit :=
  payoutWithUnlock context (sendManyArgs [] context)

namespace Dash

def sendManyArgs (context : PayoutContext) (amounts : List (Text × ℚ)) : List Argument :=
  if context.processing.minersPayTxFees then
    [.text [], .amounts amounts, .number 1, .flag false, .text context.comment,
      .addresses (amounts.map Prod.fst), .flag false, .flag false]
  else [.text [], .amounts amounts]

def payout (context : PayoutContext) : List Balance → Payout Unit :=
  payoutWithUnlock context (sendManyArgs context)

end Dash

namespace Flo

/-- The members of `SendManyRequest`. -/
def sendManyArgs (context : PayoutContext) (amounts : List (Text × ℚ)) : List Argument :=
  [.text [], .amounts amounts, .text (text "MiningCore payout")] ++
    if context.processing.minersPayTxFees then [.addresses (amounts.map Prod.fst)] else []

def transfer (args : List Argument) (balances : List Balance) : Payout Unit := do
  let result ← executeCmd Value.asString (.sendMany args) (payable balances)
  match result.error with
  | none => Program.act ⟨balances, result.response⟩
  | some _ => return ()

def payout (context : PayoutContext) (balances : List Balance) : Payout Unit := do
  let amounts ← Program.attempt (sendManyAmounts balances)
  if amounts.isEmpty then return ()
  else transfer (sendManyArgs context amounts) balances

end Flo

end Miningcore.Payments
