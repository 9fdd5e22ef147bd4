import Miningcore.DaemonInterface.DaemonClient
import Miningcore.Foundation.Interaction
import Miningcore.Payments.PayoutManager

/-! `PayoutHandlerBase`: what the payout handlers ask of a wallet, what they make of its
replies, and how they write a payment to the database.

A handler is a program that sends commands to the wallet and persists payments between
them. It catches nothing, so an exception ends it. -/

namespace Miningcore.Payments

open Miningcore.Configuration DaemonInterface Interaction Persistence Transaction

/-! ## Replies -/

structure Members where
  fee : Option Nat
  txHash : Option Text
  feeList : Option (List Nat)
  txHashList : Option (List (Option Text))
  incomingConnectionsCount : Option Int
  outgoingConnectionsCount : Option Int

/-- A result that is not null. Numbers and the like are `primitive`. -/
inductive Value
  | text (value : Text)
  | primitive
  | object (members : Members)
  | array

structure RpcBody where
  result : Option Value
  error : Option JsonRpcException

abbrev WalletReply := Reply RpcBody

structure TransferResponse where
  fee : Nat
  txHash : Option Text

structure TransferSplitResponse where
  feeList : Option (List Nat)
  txHashList : Option (List (Option Text))

structure GetInfoResponse where
  incomingConnectionsCount : Int
  outgoingConnectionsCount : Int

def conversionFails : Exception := .exception "Unable to convert the result"

namespace Value

def asString : Value → Token Text
  | .text value => .ok (some value)
  | _ => .error conversionFails

/-- `JToken`: objects and arrays are tokens, and everything else is not. -/
def asToken : Value → Token Unit
  | .object _ => .ok (some ())
  | .array => .ok (some ())
  | _ => .error conversionFails

def asObject {α : Type} (fill : Members → α) : Value → Token α
  | .object members => .ok (some (fill members))
  | _ => .error conversionFails

def asTransferResponse : Value → Token TransferResponse :=
  asObject fun members => ⟨members.fee.getD 0, members.txHash⟩

def asTransferSplitResponse : Value → Token TransferSplitResponse :=
  asObject fun members => ⟨members.feeList, members.txHashList⟩

def asGetInfoResponse : Value → Token GetInfoResponse :=
  asObject fun members =>
    ⟨members.incomingConnectionsCount.getD 0, members.outgoingConnectionsCount.getD 0⟩

end Value

def RpcBody.as {α : Type} (convert : Value → Token α) (body : RpcBody) : JsonRpcResponse α where
  result := body.result.map convert
  error := body.error

/-- What `ExecuteCmdSingleAsync` makes of a reply, for the type that it is called with. -/
def received {α : Type} (convert : Value → Token α) (reply : WalletReply) :
    Except Exception (DaemonResponse (Option α)) :=
  executeCmdSingle (reply.map (RpcBody.as convert))

/-! ## Commands -/

/-- An element of the parameters of `sendmany`. -/
inductive Argument
  | text (value : Text)
  | number (value : Nat)
  | flag (value : Bool)
  | amounts (value : List (Text × ℚ))
  | addresses (value : List Text)

structure TransferDestination where
  address : Text
  amount : Nat

structure TransferRequest where
  destinations : List TransferDestination
  paymentId : Option Text
  getTxKey : Bool

/-- The type that `ExecuteCmdSingleAsync` is called with for a transfer. -/
inductive TransferType
  | transferResponse
  | transferSplitResponse

inductive WalletCommand
  | getInfo
  | sendMany (args : List Argument)
  | walletLock
  | walletPassphrase (password : Text) (seconds : Nat)
  | transfer (request : TransferRequest)
  | transferSplit (request : TransferRequest) (response : TransferType)

structure Order where
  command : WalletCommand
  payees : List Balance

/-- A call of `PersistPayments`. -/
structure PersistPayments where
  balances : List Balance
  transactionConfirmation : Option Text

abbrev Payout := Program Order WalletReply PersistPayments Exception

/-- `ExecuteCmdSingleAsync`. -/
def executeCmd {α : Type} (convert : Value → Token α) (command : WalletCommand)
    (payees : List Balance) : Payout (DaemonResponse (Option α)) := do
  let reply ← Program.ask ⟨command, payees⟩
  Program.attempt (received convert reply)

/-- The id of the transaction that a handler takes from a reply, if the reply makes it
persist payments. The type of the response says where it looks for the id. -/
def transactionId : WalletCommand → WalletReply → Option (Option Text)
  | .sendMany _, reply =>
      match received Value.asString reply with
      | .ok ⟨none, txId⟩ => some txId
      | _ => none
  | .transfer _, reply | .transferSplit _ .transferResponse, reply =>
      match received Value.asTransferResponse reply with
      | .ok ⟨none, some response⟩ => some response.txHash
      | _ => none
  | .transferSplit _ .transferSplitResponse, reply =>
      match received Value.asTransferSplitResponse reply with
      | .ok ⟨none, some ⟨some _, some (txHash :: _)⟩⟩ => some txHash
      | _ => none
  | _, _ => none

def confirms : WalletCommand → WalletReply → Bool
  | .walletLock, reply => (received Value.asToken reply).toOption.isSome
  | command, reply => (transactionId command reply).isSome

/-- A reply that makes a handler persist payments has an id where the handler looks for it. -/
def identified (command : WalletCommand) (reply : WalletReply) : Bool :=
  match transactionId command reply with
  | none => true
  | some txId => txId.getD [] ≠ []

/-! ## PersistPayments -/

def PersistPayments.transaction (pool : PoolConfig) (payments : PersistPayments) : Tx Unit :=
  persistPayments pool payments.transactionConfirmation
    (payments.balances.map fun balance => (balance.address, balance.amount))

def retryCount : Nat := 8

/-- The fault policy: a transaction that a database exception ended is tried again. -/
def executeWithRetry (transaction : Tx Unit) (callsLeft : Nat → Option Nat) :
    Nat → Database → Database × Except Exception Unit
  | 0, database => Transaction.run .database transaction (callsLeft 0) database
  | retries + 1, database =>
      match Transaction.run .database transaction (callsLeft (retries + 1)) database with
      | (left, .error .database) => executeWithRetry transaction callsLeft retries left
      | outcome => outcome

/-- The whole call, with the calls to the database that succeed in each of its attempts. -/
def PersistPayments.run (pool : PoolConfig) (payments : PersistPayments)
    (callsLeft : Nat → Option Nat) (database : Database) : Database × Except Exception Unit :=
  executeWithRetry (payments.transaction pool) callsLeft retryCount database

end Miningcore.Payments
