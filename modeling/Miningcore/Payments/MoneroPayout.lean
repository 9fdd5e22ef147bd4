import Miningcore.Payments.BitcoinPayout

/-! `MoneroPayoutHandler`: payouts by `transfer` and `transfer_split`.

Balances without a payment id are paid in batches, the others one by one. Whether an
address is valid is up to a native library, which is a parameter here. -/

namespace Miningcore.Payments.Monero

open Miningcore.Configuration DaemonInterface Interaction Persistence

/-- `LibCryptonote`: the prefix of an address. -/
structure LibCryptonote where
  decodeAddress : Text → Nat
  decodeIntegratedAddress : Text → Nat

inductive MoneroNetworkType
  | main
  | test
deriving DecidableEq

structure Wallet where
  networkType : MoneroNetworkType
  supportsTransferSplit : Bool

def smallestUnit : CoinType → ℚ
  | .ETN => 100
  | _ => 10 ^ 12

def addressPrefix : MoneroNetworkType → CoinType → Nat
  | .main, .XMR => 18
  | .main, .ETN => 18018
  | .test, .XMR => 53
  | .test, .ETN => 53
  | _, _ => 178

def addressPrefixIntegrated : MoneroNetworkType → CoinType → Nat
  | .main, .XMR => 19
  | .main, .ETN => 18019
  | .test, .XMR => 54
  | .test, .ETN => 54
  | _, _ => 178

def payoutInfoSeperator : CodeUnit := 46

def paymentIdHexLength : Nat := 64

def extractAddressAndPaymentId (input : Text) : Text × Option Text :=
  match input.dropWhile (· ≠ payoutInfoSeperator) with
  | [] => (input, none)
  | _ :: paymentId =>
      (input.takeWhile (· ≠ payoutInfoSeperator),
        if paymentId.length = paymentIdHexLength then some paymentId else none)

def payee (address : Text) : Text := (extractAddressAndPaymentId address).1

/-- `(ulong) Math.Floor(amount)`. -/
def floorToUInt64 (amount : ℚ) : Except Exception Nat :=
  let units := ⌊amount⌋
  if 0 ≤ units ∧ units < 2 ^ 64 then .ok units.toNat else .error .overflow

def destination (coin : CoinType) (balance : Balance) : Except Exception TransferDestination := do
  let amount ← floorToUInt64 (balance.amount * smallestUnit coin)
  return ⟨payee balance.address, amount⟩

/-- `HandleTransferResponse` for a `TransferResponse`. -/
def handleTransferResponse (balances : List Balance)
    (response : DaemonResponse (Option TransferResponse)) : Payout Bool :=
  match response.error, response.response with
  | none, none => .throw .nullReference
  | none, some transfer => do
      Program.act ⟨balances, transfer.txHash⟩
      return true
  | some _, _ => return false

/-- `HandleTransferResponse` for a `TransferSplitResponse`: the payments are persisted with
the first of the hashes. -/
def handleTransferSplitResponse (balances : List Balance)
    (response : DaemonResponse (Option TransferSplitResponse)) : Payout Bool :=
  match response.error, response.response with
  | none, none => .throw .nullReference
  | none, some ⟨none, _⟩ => .throw (.argument "source")
  | none, some ⟨some _, none⟩ => .throw (.argument "source")
  | none, some ⟨some _, some []⟩ => .throw .invalidOperation
  | none, some ⟨some _, some (txHash :: _)⟩ => do
      Program.act ⟨balances, txHash⟩
      return true
  | some _, _ => return false

/-- The wallet says that a transaction would be too large, and is able to split it. -/
def retriesWithSplit (wallet : Wallet) (error : Option JsonRpcException) : Bool :=
  wallet.supportsTransferSplit && error.map JsonRpcException.code = some (-4)

/-- The commands of `PayoutBatch`. -/
def transferBatch (wallet : Wallet) (request : TransferRequest) (balances : List Balance) :
    Payout Bool := do
  let transferResponse ←
    executeCmd Value.asTransferResponse (.transfer request) (payable balances)
  if retriesWithSplit wallet transferResponse.error then do
    let transferSplitResponse ← executeCmd Value.asTransferSplitResponse
      (.transferSplit request .transferSplitResponse) (payable balances)
    handleTransferSplitResponse balances transferSplitResponse
  else handleTransferResponse balances transferResponse

def payoutBatch (wallet : Wallet) (coin : CoinType) (balances : List Balance) : Payout Bool := do
  let destinations ← Program.attempt ((payable balances).mapM (destination coin))
  if destinations.isEmpty then return true
  else transferBatch wallet ⟨destinations, none, true⟩ balances

/-- The commands of `PayoutToPaymentId`. The reply to `transfer_split` is read as one to
`transfer`. -/
def transferToPaymentId (wallet : Wallet) (request : TransferRequest) (balance : Balance) :
    Payout Bool := do
  let result ← executeCmd Value.asTransferResponse (.transfer request) [balance]
  if retriesWithSplit wallet result.error then do
    let splitResult ← executeCmd Value.asTransferResponse
      (.transferSplit request .transferResponse) [balance]
    handleTransferResponse [balance] splitResult
  else handleTransferResponse [balance] result

def payoutToPaymentId (wallet : Wallet) (coin : CoinType) (balance : Balance) : Payout Unit := do
  let only ← Program.attempt (destination coin balance)
  let paymentId := (extractAddressAndPaymentId balance.address).2
  let _ ← transferToPaymentId wallet ⟨[only], paymentId, true⟩ balance
  return ()

def payoutBatches (wallet : Wallet) (coin : CoinType) : List (List Balance) → Payout Unit
  | [] => return ()
  | page :: pages => do
      let succeeded ← payoutBatch wallet coin page
      if succeeded then payoutBatches wallet coin pages else return ()

def payoutToPaymentIds (wallet : Wallet) (coin : CoinType) : List Balance → Payout Unit
  | [] => return ()
  | balance :: balances => do
      payoutToPaymentId wallet coin balance
      payoutToPaymentIds wallet coin balances

def maxBatchSize : Nat := 28

def pages (balances : List Balance) : List (List Balance) :=
  (List.range ((balances.length + maxBatchSize - 1) / maxBatchSize)).map fun index =>
    (balances.drop (index * maxBatchSize)).take maxBatchSize

def ensurePeers : Payout Bool := do
  let reply ← Program.ask ⟨.getInfo, []⟩
  let info ← Program.attempt (executeCmdAny (reply.map (RpcBody.as Value.asGetInfoResponse)))
  return match info.error, info.response with
    | none, some counts =>
        3 ≤ (counts.incomingConnectionsCount + counts.outgoingConnectionsCount).bmod (2 ^ 32)
    | _, _ => false

variable (library : LibCryptonote)

def isNetworkAddress (wallet : Wallet) (coin : CoinType) (balance : Balance) : Bool :=
  library.decodeAddress (payee balance.address) = addressPrefix wallet.networkType coin ∨
    library.decodeIntegratedAddress (payee balance.address) =
      addressPrefixIntegrated wallet.networkType coin

def validBalances (wallet : Wallet) (coin : CoinType) :
    List Balance → Except Exception (List Balance)
  | [] => .ok []
  | balance :: balances => do
      throwIf (payee balance.address = []) (.argument "address must not be empty")
      let others ← validBalances wallet coin balances
      return if isNetworkAddress library wallet coin balance then balance :: others else others

def isSimple (wallet : Wallet) (coin : CoinType) (balance : Balance) : Bool :=
  (extractAddressAndPaymentId balance.address).2.isNone &&
    library.decodeIntegratedAddress (payee balance.address) ≠
      addressPrefixIntegrated wallet.networkType coin

def minimumPaymentToPaymentId (context : PayoutContext) : ℚ :=
  context.processing.minimumPaymentToPaymentId.getD context.processing.minimumPayment

def paymentIdBalances (wallet : Wallet) (context : PayoutContext) (balances : List Balance) :
    List Balance :=
  balances.filter fun balance => !isSimple library wallet context.pool.coin balance &&
    minimumPaymentToPaymentId context ≤ balance.amount

def simpleBalances (wallet : Wallet) (context : PayoutContext) (balances : List Balance) :
    List Balance :=
  balances.filter (isSimple library wallet context.pool.coin)

/-- The two loops of `PayoutAsync`. -/
def payoutValid (wallet : Wallet) (context : PayoutContext) (balances : List Balance) :
    Payout Unit := do
  payoutBatches wallet context.pool.coin (pages (simpleBalances library wallet context balances))
  payoutToPaymentIds wallet context.pool.coin (paymentIdBalances library wallet context balances)

def payout (wallet : Wallet) (context : PayoutContext) (balances : List Balance) :
    Payout Unit := do
  let connected ← ensurePeers
  if connected then do
    let valid ← Program.attempt (validBalances library wallet context.pool.coin balances)
    payoutValid library wallet context valid
  else return ()

end Miningcore.Payments.Monero
