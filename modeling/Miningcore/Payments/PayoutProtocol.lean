import Miningcore.Payments.MoneroPayout

/-! The protocol between a payout handler and the wallet.

A handler asks for the payment of balances that it has not paid yet. When the wallet
confirms, nothing but locking the wallet comes before the payments are persisted, with the
id of that reply. All handlers keep to it, whatever the replies are. -/

namespace Miningcore.Payments

open Miningcore.Configuration DaemonInterface Interaction Persistence

def isMonero : CoinType → Bool
  | .XMR | .AEON | .ETN => true
  | _ => false

def payeeAddress (coin : CoinType) (address : Text) : Text :=
  if isMonero coin then Monero.payee address else address

def sentAmount (coin : CoinType) (amount : ℚ) : ℚ :=
  if isMonero coin then ⌊amount * Monero.smallestUnit coin⌋ / Monero.smallestUnit coin
  else roundAmount amount

def WalletCommand.amounts (coin : CoinType) : WalletCommand → List (Text × ℚ)
  | .sendMany args => (args.findSome? fun argument =>
      match argument with
      | .amounts value => some value
      | _ => none).getD []
  | .transfer request | .transferSplit request _ => request.destinations.map fun destination =>
      (destination.address, destination.amount / Monero.smallestUnit coin)
  | _ => []

def WalletCommand.isWalletLock : WalletCommand → Bool
  | .walletLock => true
  | _ => false

/-- The balances that are not paid yet, and the order that the wallet confirmed last, with
the id from its reply, until the payments are persisted. -/
structure Standing where
  unpaid : List Balance
  settling : Option (Order × Option Text)

def Order.Asks (coin : CoinType) (order : Order) : Prop :=
  order.command.amounts coin = order.payees.map fun balance =>
    (payeeAddress coin balance.address, sentAmount coin balance.amount)

structure Order.PaysFor (coin : CoinType) (order : Order) (balances : List Balance) : Prop where
  amounts : order.command.amounts coin = order.payees.map fun balance =>
    (payeeAddress coin balance.address, sentAmount coin balance.amount)
  payees : order.payees = payable balances ∨ order.payees = balances

def payoutProtocol (coin : CoinType) :
    Protocol Order WalletReply PersistPayments Standing where
  mayAsk standing order := order.payees ⊆ standing.unpaid ∧ order.payees.Nodup ∧
    order.Asks coin ∧
      if order.command.isWalletLock then order.payees = [] else standing.settling = none
  answered standing order reply :=
    match transactionId order.command reply with
    | some txId => { standing with settling := some (order, txId) }
    | none => if confirms order.command reply then standing else { standing with settling := none }
  mayPerform standing payments := payments.balances ⊆ standing.unpaid ∧ payments.balances.Nodup ∧
    ∃ order, standing.settling = some (order, payments.transactionConfirmation) ∧
      order.PaysFor coin payments.balances
  performed standing payments :=
    ⟨standing.unpaid.filter (· ∉ payments.balances), none⟩
  mayEnd standing := standing.settling = none

theorem answered_unpaid (coin : CoinType) (standing : Standing) (order : Order)
    (reply : WalletReply) :
    ((payoutProtocol coin).answered standing order reply).unpaid = standing.unpaid := by
  simp only [payoutProtocol]
  split
  · rfl
  · split_ifs
    · rfl
    · rfl

theorem answered_more (coin : CoinType) (standing : Standing) (more : List Balance) (order : Order)
    (reply : WalletReply) :
    (payoutProtocol coin).answered ⟨more, standing.settling⟩ order reply =
      ⟨more, ((payoutProtocol coin).answered standing order reply).settling⟩ := by
  simp only [payoutProtocol]
  split
  · rfl
  · split_ifs
    · rfl
    · rfl

theorem follows_more {coin : CoinType} {standing : Standing} {program : Payout Unit}
    {more : List Balance} (follows : (payoutProtocol coin).Follows standing program)
    (isMore : standing.unpaid ⊆ more) :
    (payoutProtocol coin).Follows ⟨more, standing.settling⟩ program := by
  induction program generalizing standing more with
  | done result => exact follows
  | throw exception => exact follows
  | call order resume induction =>
      rcases follows with ⟨⟨isUnpaid, may⟩, later⟩
      refine ⟨⟨List.Subset.trans isUnpaid isMore, may⟩, ?_⟩
      intro reply
      rw [answered_more]
      apply induction reply (later reply)
      rw [answered_unpaid]
      exact isMore
  | perform payments next induction =>
      rcases follows with ⟨⟨isUnpaid, may⟩, later⟩
      refine ⟨⟨List.Subset.trans isUnpaid isMore, may⟩, ?_⟩
      apply induction later
      intro balance member
      rw [payoutProtocol, List.mem_filter] at member
      exact List.mem_filter.mpr ⟨isMore member.1, member.2⟩

/-! ## Commands -/

section Commands

variable {coin : CoinType} {standing : Standing}

theorem confirms_of_order {command : WalletCommand} (isOrder : command.isWalletLock = false)
    (reply : WalletReply) : confirms command reply = (transactionId command reply).isSome := by
  cases command with
  | walletLock => cases isOrder
  | getInfo => rfl
  | sendMany args => rfl
  | walletPassphrase password seconds => rfl
  | transfer request => rfl
  | transferSplit request response => rfl

theorem ensures_executeCmd {α : Type} {convert : Value → Token α} {command : WalletCommand}
    {payees : List Balance} {post : Standing → DaemonResponse (Option α) → Prop}
    (may : (payoutProtocol coin).mayAsk standing ⟨command, payees⟩)
    (throws : ∀ reply exception, received convert reply = .error exception →
      (payoutProtocol coin).mayEnd
        ((payoutProtocol coin).answered standing ⟨command, payees⟩ reply))
    (returns : ∀ reply response, received convert reply = .ok response →
      post ((payoutProtocol coin).answered standing ⟨command, payees⟩ reply) response) :
    (payoutProtocol coin).Ensures post standing (executeCmd convert command payees) := by
  refine ⟨may, ?_⟩
  intro reply
  exact (payoutProtocol coin).ensures_attempt (throws reply) (returns reply)

theorem ensures_order {α : Type} {convert : Value → Token α} {command : WalletCommand}
    {payees : List Balance} {id : DaemonResponse (Option α) → Option (Option Text)}
    (isId : ∀ reply, transactionId command reply = (received convert reply).toOption.bind id)
    (isOrder : command.isWalletLock = false) {unpaid : List Balance} (isUnpaid : payees ⊆ unpaid)
    (nodup : payees.Nodup) (asks : Order.Asks coin ⟨command, payees⟩) :
    (payoutProtocol coin).Ensures
      (fun next response =>
        next = ⟨unpaid, (id response).map fun txId => (⟨command, payees⟩, txId)⟩)
      ⟨unpaid, none⟩ (executeCmd convert command payees) := by
  have answered : ∀ reply, (payoutProtocol coin).answered ⟨unpaid, none⟩ ⟨command, payees⟩ reply =
      ⟨unpaid, (transactionId command reply).map fun txId => (⟨command, payees⟩, txId)⟩ := by
    intro reply
    simp only [payoutProtocol, confirms_of_order isOrder]
    cases transactionId command reply with
    | none => rfl
    | some txId => rfl
  apply ensures_executeCmd
  · refine ⟨isUnpaid, nodup, asks, ?_⟩
    rw [isOrder]
    rfl
  · intro reply exception throws
    rw [answered, isId, throws]
    rfl
  · intro reply response returns
    rw [answered, isId, returns]
    rfl

theorem ensures_neutral {α : Type} {convert : Value → Token α} {command : WalletCommand}
    (neutral : ∀ reply, transactionId command reply = none) (isOrder : command.isWalletLock = false)
    (free : command.amounts coin = []) (idle : standing.settling = none) :
    (payoutProtocol coin).Ensures
      (fun next (_ : DaemonResponse (Option α)) => next = standing) standing
      (executeCmd convert command []) := by
  have stays : ∀ reply, (payoutProtocol coin).answered standing ⟨command, []⟩ reply = standing := by
    intro reply
    rcases standing with ⟨owed, settling⟩
    cases idle
    simp only [payoutProtocol, neutral, ite_self]
  apply ensures_executeCmd
  · refine ⟨List.nil_subset _, List.nodup_nil, free, ?_⟩
    rw [isOrder]
    exact idle
  · intro reply exception _
    rw [stays]
    exact idle
  · intro reply response _
    exact stays reply

theorem ensures_walletLock :
    (payoutProtocol coin).Ensures
      (fun next (_ : DaemonResponse (Option Unit)) => next = standing) standing
      (executeCmd Value.asToken .walletLock []) := by
  apply ensures_executeCmd
  · exact ⟨List.nil_subset _, List.nodup_nil, rfl, rfl⟩
  · intro reply exception throws
    simp [payoutProtocol, transactionId, confirms, throws, Except.toOption]
  · intro reply response returns
    simp [payoutProtocol, transactionId, confirms, returns, Except.toOption]

theorem ensures_lockWallet (didUnlockWallet : Bool) :
    (payoutProtocol coin).Ensures (fun next _ => next = standing) standing
      (lockWallet didUnlockWallet) := by
  rw [lockWallet]
  split_ifs
  · apply ensures_walletLock.bind
    intro middle response same
    exact same
  · rfl

theorem ensures_persist {balances unpaid : List Balance} {order : Order} {txId : Option Text}
    (isUnpaid : balances ⊆ unpaid) (nodup : balances.Nodup) (pays : order.PaysFor coin balances) :
    (payoutProtocol coin).Ensures
      (fun next _ => next = ⟨unpaid.filter (· ∉ balances), none⟩) ⟨unpaid, some (order, txId)⟩
      (Program.act ⟨balances, txId⟩ : Payout Unit) :=
  ⟨⟨isUnpaid, nodup, order, rfl, pays⟩, rfl⟩

end Commands

/-! ## Handlers that pay with `sendmany` -/

section SendMany

variable {coin : CoinType} {context : PayoutContext} {balances : List Balance}
variable {args : List Argument}

def ArgumentsFor (args : List Argument) (balances : List Balance) : Prop :=
  (args.findSome? fun argument =>
    match argument with
    | .amounts value => some value
    | _ => none) = some ((payable balances).map fun balance =>
      (balance.address, roundAmount balance.amount))

theorem paysFor_sendMany (other : isMonero coin = false) (isArgs : ArgumentsFor args balances) :
    Order.PaysFor coin ⟨.sendMany args, payable balances⟩ balances where
  amounts := by
    rw [ArgumentsFor] at isArgs
    simp only [WalletCommand.amounts, isArgs, Option.getD_some, payeeAddress, sentAmount, other,
      Bool.false_eq_true, if_false]
  payees := .inl rfl

theorem payable_subset (balances : List Balance) : payable balances ⊆ balances :=
  fun _ member => (List.mem_filter.mp member).1

theorem sendMany_id (args : List Argument) (reply : WalletReply) :
    transactionId (.sendMany args) reply = (received Value.asString reply).toOption.bind
      fun response => if response.error.isNone then some response.response else none := by
  rw [transactionId]
  rcases received Value.asString reply with exception | ⟨error, response⟩
  · rfl
  · cases error with
    | none => rfl
    | some error => rfl

theorem unlockWallet_follows {tryAgain : Payout Unit}
    (again : (payoutProtocol coin).Follows ⟨balances, none⟩ tryAgain) :
    (payoutProtocol coin).Follows ⟨balances, none⟩ (unlockWallet context tryAgain) := by
  rw [unlockWallet]
  split
  · rfl
  · rfl
  · apply (ensures_neutral (fun _ => rfl) rfl rfl rfl).bind
    rintro _ unlockResult rfl
    split_ifs
    · exact again
    · rfl

section Attempts

variable (other : isMonero coin = false) (nodup : balances.Nodup)

include other nodup

theorem tryTransfer_follows (isArgs : ArgumentsFor args balances) (didUnlockWallet : Bool)
    {tryAgain : Payout Unit}
    (again : (payoutProtocol coin).Follows ⟨balances, none⟩ tryAgain) :
    (payoutProtocol coin).Follows ⟨balances, none⟩
      (tryTransfer context args balances didUnlockWallet tryAgain) := by
  apply (ensures_order (sendMany_id args) rfl (payable_subset balances)
    (nodup.filter _) (paysFor_sendMany other isArgs).amounts).bind
  rintro middle ⟨_ | error, txId⟩ rfl
  · -- The wallet confirmed the order.
    apply (ensures_lockWallet didUnlockWallet).bind
    rintro _ _ rfl
    apply (ensures_persist (List.Subset.refl balances) nodup
      (paysFor_sendMany other isArgs)).weaken
    rintro _ _ rfl
    rfl
  · show (payoutProtocol coin).Follows ⟨balances, none⟩
      (if error.code = walletUnlockNeeded ∧ !didUnlockWallet then unlockWallet context tryAgain
        else return ())
    split_ifs
    · exact unlockWallet_follows again
    · rfl

theorem payoutWithUnlock_follows {arguments : List (Text × ℚ) → List Argument}
    (isArgs : ∀ amounts, sendManyAmounts balances = .ok amounts →
      ArgumentsFor (arguments amounts) balances) :
    (payoutProtocol coin).Follows ⟨balances, none⟩
      (payoutWithUnlock context arguments balances) := by
  rw [payoutWithUnlock]
  cases entries : sendManyAmounts balances with
  | error exception => rfl
  | ok amounts =>
      have first := isArgs amounts entries
      show (payoutProtocol coin).Follows _ (if amounts.isEmpty then _ else _)
      split_ifs
      · rfl
      · apply tryTransfer_follows other nodup first
        apply tryTransfer_follows other nodup first
        rfl

end Attempts

theorem sendManyAmounts_ok {amounts : List (Text × ℚ)}
    (ok : sendManyAmounts balances = .ok amounts) :
    amounts = (payable balances).map fun balance =>
      (balance.address, roundAmount balance.amount) := by
  simp only [sendManyAmounts, toDictionary, bind_eq_ok, throwIf_eq_ok, pure_eq_ok] at ok
  rcases ok with ⟨-, -, isAmounts⟩
  exact isAmounts.symm

theorem argumentsFor_sendManyArgs (context : PayoutContext) (account : Text)
    {amounts : List (Text × ℚ)}
    (ok : sendManyAmounts balances = .ok amounts) :
    ArgumentsFor (sendManyArgs account context amounts) balances := by
  rw [ArgumentsFor, sendManyArgs, sendManyAmounts_ok ok]
  split_ifs <;> rfl

theorem Dash.argumentsFor_sendManyArgs (context : PayoutContext) {amounts : List (Text × ℚ)}
    (ok : sendManyAmounts balances = .ok amounts) :
    ArgumentsFor (Dash.sendManyArgs context amounts) balances := by
  rw [ArgumentsFor, Dash.sendManyArgs, sendManyAmounts_ok ok]
  split_ifs <;> rfl

theorem Flo.argumentsFor_sendManyArgs (context : PayoutContext) {amounts : List (Text × ℚ)}
    (ok : sendManyAmounts balances = .ok amounts) :
    ArgumentsFor (Flo.sendManyArgs context amounts) balances := by
  rw [ArgumentsFor, Flo.sendManyArgs, sendManyAmounts_ok ok]
  rfl

theorem Flo.payout_follows (other : isMonero coin = false) (nodup : balances.Nodup) :
    (payoutProtocol coin).Follows ⟨balances, none⟩ (Flo.payout context balances) := by
  rw [Flo.payout]
  cases entries : sendManyAmounts balances with
  | error exception => rfl
  | ok amounts =>
      have isArgs := Flo.argumentsFor_sendManyArgs context entries
      show (payoutProtocol coin).Follows _ (if amounts.isEmpty then _ else _)
      split_ifs
      · rfl
      · apply (ensures_order (sendMany_id _) rfl (payable_subset balances)
          (nodup.filter _) (paysFor_sendMany other isArgs).amounts).bind
        rintro middle ⟨_ | error, txId⟩ rfl
        · apply (ensures_persist (List.Subset.refl balances) nodup
            (paysFor_sendMany other isArgs)).weaken
          rintro _ _ rfl
          rfl
        · rfl

end SendMany

/-! ## The Monero handler -/

namespace Monero

variable {coin : CoinType} {wallet : Wallet}

/-- What a handler has done with some of the balances leaves the others unpaid. -/
def Spares (unpaid paid : List Balance) (next : Standing) : Prop :=
  next.settling = none ∧ ∀ balance ∈ unpaid, balance ∉ paid → balance ∈ next.unpaid

theorem spares_self (unpaid paid : List Balance) : Spares unpaid paid ⟨unpaid, none⟩ :=
  ⟨rfl, fun _ member _ => member⟩

theorem spares_filter (unpaid paid : List Balance) :
    Spares unpaid paid ⟨unpaid.filter (· ∉ paid), none⟩ := by
  refine ⟨rfl, ?_⟩
  intro balance member absent
  rw [List.mem_filter, decide_eq_true_eq]
  exact ⟨member, absent⟩

/-- The id that a handler takes from a `TransferResponse`. -/
def transferId (response : DaemonResponse (Option TransferResponse)) : Option (Option Text) :=
  match response.error, response.response with
  | none, some transfer => some transfer.txHash
  | _, _ => none

def transferSplitId (response : DaemonResponse (Option TransferSplitResponse)) :
    Option (Option Text) :=
  match response.error, response.response with
  | none, some ⟨some _, some (txHash :: _)⟩ => some txHash
  | _, _ => none

theorem transfer_id (request : TransferRequest) (reply : WalletReply) :
    transactionId (.transfer request) reply =
      (received Value.asTransferResponse reply).toOption.bind transferId := by
  rw [transactionId]
  rcases received Value.asTransferResponse reply with exception | ⟨_ | error, _ | response⟩ <;> rfl

theorem transferSplit_single_id (request : TransferRequest) (reply : WalletReply) :
    transactionId (.transferSplit request .transferResponse) reply =
      (received Value.asTransferResponse reply).toOption.bind transferId :=
  transfer_id request reply

theorem transferSplit_id (request : TransferRequest) (reply : WalletReply) :
    transactionId (.transferSplit request .transferSplitResponse) reply =
      (received Value.asTransferSplitResponse reply).toOption.bind transferSplitId := by
  rw [transactionId]
  rcases received Value.asTransferSplitResponse reply with exception |
    ⟨_ | error, _ | ⟨_ | fees, _ | _ | ⟨txHash, rest⟩⟩⟩ <;> rfl

theorem destination_ok {balance : Balance} {found : TransferDestination}
    (ok : destination coin balance = .ok found) :
    (found.address, (found.amount : ℚ) / smallestUnit coin) = (payee balance.address,
      (⌊balance.amount * smallestUnit coin⌋ : ℚ) / smallestUnit coin) := by
  simp only [destination, bind_eq_ok, pure_eq_ok, floorToUInt64] at ok
  rcases ok with ⟨amount, isAmount, rfl⟩
  split_ifs at isAmount with fits
  cases isAmount
  have exact : ((⌊balance.amount * smallestUnit coin⌋.toNat : ℤ) : ℚ) =
      ⌊balance.amount * smallestUnit coin⌋ := by
    rw [Int.toNat_of_nonneg fits.1]
  rw [Int.cast_natCast] at exact
  rw [exact]

theorem destinations_ok {balances : List Balance} {destinations : List TransferDestination}
    (ok : balances.mapM (destination coin) = .ok destinations) :
    destinations.map (fun found => (found.address, (found.amount : ℚ) / smallestUnit coin)) =
      balances.map fun balance => (payee balance.address,
        (⌊balance.amount * smallestUnit coin⌋ : ℚ) / smallestUnit coin) := by
  induction balances generalizing destinations with
  | nil =>
      cases ok
      rfl
  | cons balance balances induction =>
      rw [List.mapM_cons] at ok
      simp only [bind_eq_ok, pure_eq_ok] at ok
      rcases ok with ⟨found, first, others, rest, rfl⟩
      rw [List.map_cons, List.map_cons, destination_ok first, induction rest]

variable {request : TransferRequest} {payees balances unpaid : List Balance}

def RequestFor (coin : CoinType) (request : TransferRequest) (payees : List Balance) : Prop :=
  payees.mapM (destination coin) = .ok request.destinations

theorem asks_of_request {command : WalletCommand} (monero : isMonero coin = true)
    (isRequest : RequestFor coin request payees)
    (isCommand : command.amounts coin = request.destinations.map fun destination =>
      (destination.address, destination.amount / smallestUnit coin)) :
    Order.Asks coin ⟨command, payees⟩ := by
  rw [Order.Asks, isCommand, destinations_ok isRequest]
  simp only [payeeAddress, sentAmount, monero, if_true]

theorem paysFor_of_request {command : WalletCommand} (monero : isMonero coin = true)
    (isRequest : RequestFor coin request payees)
    (isCommand : command.amounts coin = request.destinations.map fun destination =>
      (destination.address, destination.amount / smallestUnit coin))
    (isPayees : payees = payable balances ∨ payees = balances) :
    Order.PaysFor coin ⟨command, payees⟩ balances where
  amounts := asks_of_request monero isRequest isCommand
  payees := isPayees

theorem handleTransferResponse_ensures {order : Order} (pays : order.PaysFor coin balances)
    (isUnpaid : balances ⊆ unpaid) (nodup : balances.Nodup)
    (response : DaemonResponse (Option TransferResponse)) :
    (payoutProtocol coin).Ensures (fun next _ => Spares unpaid balances next)
      ⟨unpaid, (transferId response).map fun txId => (order, txId)⟩
      (handleTransferResponse balances response) := by
  rcases response with ⟨_ | error, _ | transfer⟩
  · rfl
  · apply (ensures_persist isUnpaid nodup pays).bind
    rintro _ _ rfl
    exact spares_filter unpaid balances
  · exact spares_self unpaid balances
  · exact spares_self unpaid balances

theorem handleTransferSplitResponse_ensures {order : Order} (pays : order.PaysFor coin balances)
    (isUnpaid : balances ⊆ unpaid) (nodup : balances.Nodup)
    (response : DaemonResponse (Option TransferSplitResponse)) :
    (payoutProtocol coin).Ensures (fun next _ => Spares unpaid balances next)
      ⟨unpaid, (transferSplitId response).map fun txId => (order, txId)⟩
      (handleTransferSplitResponse balances response) := by
  rcases response with ⟨_ | error, _ | ⟨fees, hashes⟩⟩
  · rfl
  · rcases fees with _ | fees
    · rfl
    · rcases hashes with _ | _ | ⟨txHash, rest⟩
      · rfl
      · rfl
      · apply (ensures_persist isUnpaid nodup pays).bind
        rintro _ _ rfl
        exact spares_filter unpaid balances
  · exact spares_self unpaid balances
  · exact spares_self unpaid balances

theorem transfer_ensures {α : Type} {convert : Value → Token α} {command : WalletCommand}
    {id : DaemonResponse (Option α) → Option (Option Text)}
    {handle : DaemonResponse (Option α) → Payout Bool}
    (isId : ∀ reply, transactionId command reply = (received convert reply).toOption.bind id)
    (isOrder : command.isWalletLock = false) (isUnpaid : payees ⊆ unpaid) (nodup : payees.Nodup)
    (asks : Order.Asks coin ⟨command, payees⟩)
    (handles : ∀ response, (payoutProtocol coin).Ensures
      (fun next _ => Spares unpaid balances next)
      ⟨unpaid, (id response).map fun txId => (⟨command, payees⟩, txId)⟩ (handle response)) :
    (payoutProtocol coin).Ensures (fun next _ => Spares unpaid balances next) ⟨unpaid, none⟩
      (executeCmd convert command payees >>= handle) := by
  apply (ensures_order isId isOrder isUnpaid nodup asks).bind
  rintro _ response rfl
  exact handles response

theorem transferId_of_retry {response : DaemonResponse (Option TransferResponse)}
    (retries : retriesWithSplit wallet response.error = true) : transferId response = none := by
  rcases response with ⟨_ | error, transfer⟩
  · simp [retriesWithSplit] at retries
  · rfl

section Requests

variable (monero : isMonero coin = true) (isUnpaid : balances ⊆ unpaid) (nodup : balances.Nodup)

include monero isUnpaid nodup

theorem transferBatch_ensures (isRequest : RequestFor coin request (payable balances)) :
    (payoutProtocol coin).Ensures (fun next _ => Spares unpaid balances next) ⟨unpaid, none⟩
      (transferBatch wallet request balances) := by
  have payeesUnpaid : payable balances ⊆ unpaid :=
    List.Subset.trans (payable_subset balances) isUnpaid
  have payeesNodup : (payable balances).Nodup := nodup.filter _
  apply transfer_ensures (transfer_id request) rfl payeesUnpaid payeesNodup
    (asks_of_request monero isRequest rfl)
  intro response
  split_ifs with retries
  · rw [transferId_of_retry retries]
    apply transfer_ensures (transferSplit_id request) rfl payeesUnpaid payeesNodup
      (asks_of_request monero isRequest rfl)
    exact handleTransferSplitResponse_ensures
      (paysFor_of_request monero isRequest rfl (.inl rfl)) isUnpaid nodup
  · exact handleTransferResponse_ensures
      (paysFor_of_request monero isRequest rfl (.inl rfl)) isUnpaid nodup response

theorem payoutBatch_ensures :
    (payoutProtocol coin).Ensures (fun next _ => Spares unpaid balances next) ⟨unpaid, none⟩
      (payoutBatch wallet coin balances) := by
  rw [payoutBatch]
  cases built : (payable balances).mapM (destination coin) with
  | error exception => rfl
  | ok destinations =>
      show (payoutProtocol coin).Ensures _ _ (if destinations.isEmpty then _ else _)
      split_ifs
      · exact spares_self unpaid balances
      · exact transferBatch_ensures monero isUnpaid nodup built

end Requests

theorem transferToPaymentId_ensures {balance : Balance} (monero : isMonero coin = true)
    (isUnpaid : balance ∈ unpaid) (isRequest : RequestFor coin request [balance]) :
    (payoutProtocol coin).Ensures (fun next _ => Spares unpaid [balance] next) ⟨unpaid, none⟩
      (transferToPaymentId wallet request balance) := by
  have only : [balance] ⊆ unpaid := List.cons_subset.mpr ⟨isUnpaid, List.nil_subset _⟩
  have nodup : [balance].Nodup := List.nodup_singleton balance
  apply transfer_ensures (transfer_id request) rfl only nodup
    (asks_of_request monero isRequest rfl)
  intro response
  split_ifs with retries
  · rw [transferId_of_retry retries]
    apply transfer_ensures (transferSplit_single_id request) rfl only nodup
      (asks_of_request monero isRequest rfl)
    exact handleTransferResponse_ensures
      (paysFor_of_request monero isRequest rfl (.inr rfl)) only nodup
  · exact handleTransferResponse_ensures
      (paysFor_of_request monero isRequest rfl (.inr rfl)) only nodup response

theorem payoutToPaymentId_ensures {balance : Balance} (monero : isMonero coin = true)
    (isUnpaid : balance ∈ unpaid) :
    (payoutProtocol coin).Ensures (fun next _ => Spares unpaid [balance] next) ⟨unpaid, none⟩
      (payoutToPaymentId wallet coin balance) := by
  rw [payoutToPaymentId]
  cases built : destination coin balance with
  | error exception => rfl
  | ok found =>
      have isRequest : RequestFor coin ⟨[found], (extractAddressAndPaymentId balance.address).2,
          true⟩ [balance] := by
        rw [RequestFor, List.mapM_cons, built]
        rfl
      apply (transferToPaymentId_ensures monero isUnpaid isRequest).bind
      intro next _ spares
      exact spares

theorem flatten_pages {α : Type} (rows : List α) (size count : Nat) :
    ((List.range count).map fun index => (rows.drop (index * size)).take size).flatten =
      rows.take (count * size) := by
  induction count with
  | zero => simp
  | succ count induction =>
      rw [List.range_succ, List.map_append, List.flatten_append, induction, Nat.succ_mul,
        List.take_add]
      simp

theorem pages_flatten (balances : List Balance) : (pages balances).flatten = balances := by
  rw [pages, flatten_pages, List.take_of_length_le]
  have := Nat.div_add_mod (balances.length + maxBatchSize - 1) maxBatchSize
  have := Nat.mod_lt (balances.length + maxBatchSize - 1) (by decide : 0 < maxBatchSize)
  rw [Nat.mul_comm]
  omega

theorem payoutBatches_ensures (monero : isMonero coin = true) (batches : List (List Balance))
    {unpaid : List Balance} (isUnpaid : batches.flatten ⊆ unpaid) (nodup : batches.flatten.Nodup) :
    (payoutProtocol coin).Ensures (fun next _ => Spares unpaid batches.flatten next)
      ⟨unpaid, none⟩ (payoutBatches wallet coin batches) := by
  induction batches generalizing unpaid with
  | nil => exact spares_self unpaid []
  | cons batch batches induction =>
      rw [List.flatten_cons, List.append_subset] at isUnpaid
      rw [List.flatten_cons, List.nodup_append] at nodup
      rw [payoutBatches]
      apply (payoutBatch_ensures monero isUnpaid.1 nodup.1).bind
      rintro ⟨left, _⟩ succeeded ⟨rfl, spared⟩
      split_ifs
      · have laterUnpaid : batches.flatten ⊆ left := by
          intro balance member
          apply spared balance (isUnpaid.2 member)
          intro first
          exact nodup.2.2 balance first balance member rfl
        apply (induction laterUnpaid nodup.2.1).weaken
        rintro next _ ⟨idle, laterSpared⟩
        refine ⟨idle, ?_⟩
        intro balance member absent
        rw [List.flatten_cons, List.mem_append, not_or] at absent
        exact laterSpared balance (spared balance member absent.1) absent.2
      · refine ⟨rfl, ?_⟩
        intro balance member absent
        rw [List.flatten_cons, List.mem_append, not_or] at absent
        exact spared balance member absent.1

theorem payoutToPaymentIds_follows (monero : isMonero coin = true) (balances : List Balance)
    {unpaid : List Balance} (isUnpaid : balances ⊆ unpaid) (nodup : balances.Nodup) :
    (payoutProtocol coin).Follows ⟨unpaid, none⟩ (payoutToPaymentIds wallet coin balances) := by
  induction balances generalizing unpaid with
  | nil => rfl
  | cons balance balances induction =>
      rw [List.cons_subset] at isUnpaid
      rw [List.nodup_cons] at nodup
      apply (payoutToPaymentId_ensures monero isUnpaid.1).bind
      rintro ⟨left, _⟩ _ ⟨rfl, spared⟩
      apply induction _ nodup.2
      intro other member
      apply spared other (isUnpaid.2 member)
      rw [List.mem_singleton]
      rintro rfl
      exact nodup.1 member

variable {library : LibCryptonote} {context : PayoutContext}

theorem validBalances_ok {balances valid : List Balance}
    (ok : validBalances library wallet coin balances = .ok valid) :
    valid = balances.filter (isNetworkAddress library wallet coin) := by
  induction balances generalizing valid with
  | nil =>
      cases ok
      rfl
  | cons balance balances induction =>
      simp only [validBalances, bind_eq_ok, throwIf_eq_ok, pure_eq_ok] at ok
      rcases ok with ⟨-, -, others, rest, rfl⟩
      rw [List.filter_cons, induction rest]

theorem payoutValid_follows (monero : isMonero context.pool.coin = true)
    (simpleUnpaid : simpleBalances library wallet context balances ⊆ unpaid)
    (otherUnpaid : paymentIdBalances library wallet context balances ⊆ unpaid)
    (nodup : balances.Nodup) :
    (payoutProtocol context.pool.coin).Follows ⟨unpaid, none⟩
      (payoutValid library wallet context balances) := by
  have batchesUnpaid : (pages (simpleBalances library wallet context balances)).flatten ⊆
      unpaid := by
    rw [pages_flatten]
    exact simpleUnpaid
  have batchesNodup : (pages (simpleBalances library wallet context balances)).flatten.Nodup := by
    rw [pages_flatten]
    exact nodup.filter _
  apply (payoutBatches_ensures monero _ batchesUnpaid batchesNodup).bind
  rintro ⟨left, _⟩ _ ⟨rfl, spared⟩
  apply payoutToPaymentIds_follows monero _ _ (nodup.filter _)
  intro balance member
  have parts := List.mem_filter.mp member
  apply spared balance (otherUnpaid member)
  rw [pages_flatten, simpleBalances, List.mem_filter]
  rintro ⟨-, simple⟩
  simp [simple] at parts

theorem ensurePeers_ensures {standing : Standing} (idle : standing.settling = none) :
    (payoutProtocol coin).Ensures (fun next _ => next = standing) standing ensurePeers := by
  have stays : ∀ reply, (payoutProtocol coin).answered standing ⟨.getInfo, []⟩ reply =
      standing := by
    intro reply
    rcases standing with ⟨owed, settling⟩
    cases idle
    rfl
  refine ⟨⟨List.nil_subset _, List.nodup_nil, rfl, idle⟩, ?_⟩
  intro reply
  rw [stays]
  show (payoutProtocol coin).Ensures _ standing
    (Program.attempt (executeCmdAny (reply.map (RpcBody.as Value.asGetInfoResponse))) >>= _)
  cases executeCmdAny (reply.map (RpcBody.as Value.asGetInfoResponse)) with
  | error exception => exact idle
  | ok info => rfl

def paidBalances (library : LibCryptonote) (wallet : Wallet) (context : PayoutContext)
    (balances : List Balance) : List Balance :=
  match validBalances library wallet context.pool.coin balances with
  | .error _ => []
  | .ok valid =>
      simpleBalances library wallet context valid ++ paymentIdBalances library wallet context valid

theorem paidBalances_subset (library : LibCryptonote) (wallet : Wallet) (context : PayoutContext)
    (balances : List Balance) : paidBalances library wallet context balances ⊆ balances := by
  rw [paidBalances]
  split
  · exact List.nil_subset _
  · rename_i valid found
    rw [validBalances_ok found]
    intro balance member
    rw [List.mem_append] at member
    rcases member with simple | other
    · exact (List.mem_filter.mp (List.mem_filter.mp simple).1).1
    · exact (List.mem_filter.mp (List.mem_filter.mp other).1).1

theorem payout_follows (monero : isMonero context.pool.coin = true)
    (isUnpaid : paidBalances library wallet context balances ⊆ unpaid) (nodup : balances.Nodup) :
    (payoutProtocol context.pool.coin).Follows ⟨unpaid, none⟩
      (payout library wallet context balances) := by
  apply (ensurePeers_ensures rfl).bind
  rintro _ connected rfl
  split_ifs
  · rw [paidBalances] at isUnpaid
    cases found : validBalances library wallet context.pool.coin balances with
    | error exception => rfl
    | ok valid =>
        rw [found, List.append_subset] at isUnpaid
        apply payoutValid_follows monero isUnpaid.1 isUnpaid.2
        rw [validBalances_ok found]
        exact nodup.filter _
  · rfl

end Monero

/-! ## The handler of a coin -/

inductive PayoutHandler
  | exchangeCoin
  | bitcoin
  | dash
  | flo
  | monero
deriving DecidableEq

/-- The handler that supports a coin. Those for Ethereum and ZCash are left out. -/
def payoutHandler : CoinType → Option PayoutHandler
  | .EXCC => some .exchangeCoin
  | .DASH | .GBX | .CRC => some .dash
  | .FLO => some .flo
  | .XMR | .AEON | .ETN => some .monero
  | .ETH | .ETC | .EXP | .ELLA | .CLO | .ZEC | .ZCL | .ZEN | .BTCP => none
  | _ => some .bitcoin

theorem isMonero_of_handler {coin : CoinType} {handler : PayoutHandler}
    (isHandler : payoutHandler coin = some handler) :
    isMonero coin = decide (handler = .monero) := by
  cases coin <;> cases isHandler <;> rfl

def PayoutHandler.payout (library : Monero.LibCryptonote) (wallet : Monero.Wallet)
    (context : PayoutContext) (balances : List Balance) : PayoutHandler → Payout Unit
  | .exchangeCoin => ExchangeCoin.payout context balances
  | .bitcoin => Bitcoin.payout context balances
  | .dash => Dash.payout context balances
  | .flo => Flo.payout context balances
  | .monero => Monero.payout library wallet context balances

def PayoutHandler.paidBalances (library : Monero.LibCryptonote) (wallet : Monero.Wallet)
    (context : PayoutContext) (balances : List Balance) : PayoutHandler → List Balance
  | .monero => Monero.paidBalances library wallet context balances
  | _ => balances

theorem PayoutHandler.paidBalances_subset (library : Monero.LibCryptonote)
    (wallet : Monero.Wallet) (context : PayoutContext) (balances : List Balance)
    (handler : PayoutHandler) :
    handler.paidBalances library wallet context balances ⊆ balances := by
  cases handler with
  | monero => exact Monero.paidBalances_subset library wallet context balances
  | exchangeCoin => exact List.Subset.refl _
  | bitcoin => exact List.Subset.refl _
  | dash => exact List.Subset.refl _
  | flo => exact List.Subset.refl _

theorem payout_follows (library : Monero.LibCryptonote) (wallet : Monero.Wallet)
    {context : PayoutContext} {handler : PayoutHandler}
    (isHandler : payoutHandler context.pool.coin = some handler) {balances : List Balance}
    (nodup : balances.Nodup) :
    (payoutProtocol context.pool.coin).Follows
      ⟨handler.paidBalances library wallet context balances, none⟩
      (handler.payout library wallet context balances) := by
  have kind := isMonero_of_handler isHandler
  cases handler with
  | exchangeCoin =>
      exact payoutWithUnlock_follows kind nodup fun amounts ok =>
        argumentsFor_sendManyArgs context (text "default") ok
  | bitcoin =>
      exact payoutWithUnlock_follows kind nodup fun amounts ok =>
        argumentsFor_sendManyArgs context [] ok
  | dash =>
      exact payoutWithUnlock_follows kind nodup fun amounts ok =>
        Dash.argumentsFor_sendManyArgs context ok
  | flo => exact Flo.payout_follows kind nodup
  | monero => exact Monero.payout_follows kind (List.Subset.refl _) nodup

end Miningcore.Payments
