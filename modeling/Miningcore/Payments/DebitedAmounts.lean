import Miningcore.Payments.PayoutRuns

/-! What is debited for a payment beside what the wallet is asked to pay.

The wallet is asked for an amount that is rounded to the units of the coin, and the
balance is debited with the amount itself. The two agree where nothing is rounded. -/

namespace Miningcore.Payments

open Miningcore.Configuration DaemonInterface Interaction Persistence Transaction

/-! ## Units -/

def unitsPerCoin (coin : CoinType) : ℚ :=
  if isMonero coin then Monero.smallestUnit coin else 10 ^ 8

def IsWhole (coin : CoinType) (amount : ℚ) : Prop := ∃ units : ℤ, amount = units / unitsPerCoin coin

theorem smallestUnit_pos (coin : CoinType) : 0 < Monero.smallestUnit coin := by
  unfold Monero.smallestUnit
  split
  · norm_num
  · norm_num

theorem rounded_eq_iff {round : ℚ → ℤ} (exact : ∀ units : ℤ, round units = units) {unit : ℚ}
    (pos : 0 < unit) (amount : ℚ) :
    (round (amount * unit) : ℚ) / unit = amount ↔ ∃ units : ℤ, amount = units / unit := by
  constructor
  · intro same
    exact ⟨_, same.symm⟩
  · rintro ⟨units, rfl⟩
    rw [div_mul_cancel₀ _ pos.ne', exact]

theorem sentAmount_eq_iff (coin : CoinType) (amount : ℚ) :
    sentAmount coin amount = amount ↔ IsWhole coin amount := by
  rw [sentAmount, IsWhole, unitsPerCoin]
  split_ifs
  · exact rounded_eq_iff Int.floor_intCast (smallestUnit_pos coin) amount
  · exact rounded_eq_iff roundHalfEven_intCast (by norm_num) amount

theorem sentAmount_le {coin : CoinType} (monero : isMonero coin = true) (amount : ℚ) :
    sentAmount coin amount ≤ amount := by
  rw [sentAmount, if_pos monero, div_le_iff₀ (smallestUnit_pos coin)]
  exact Int.floor_le _

/-! ## Requests and debits -/

def DebitsRequested (pools : List PoolConfig) (pool : PoolConfig) (requested : List (Text × ℚ))
    (payments : PersistPayments) : Prop :=
  ∀ database next, BalanceHistory.Ledger.Sound pools ⟨database, payments.balances⟩ →
    Leads (payments.transaction pool) database () next →
    ∀ address, Tally.amountOf address requested =
      Tally.amountOf address (payments.balances.map fun balance =>
        (payeeAddress pool.coin balance.address,
          database.balanceOf ⟨pool.id, pool.coin, balance.address⟩ -
            next.balanceOf ⟨pool.id, pool.coin, balance.address⟩))

def WalletCommand.isTransfer : WalletCommand → Bool
  | .sendMany _ | .transfer _ | .transferSplit _ _ => true
  | _ => false

/-- What the wallet was asked for last is kept until payments are persisted. A success
without an id is not looked into. -/
def debitProtocol (pools : List PoolConfig) (pool : PoolConfig) :
    Protocol Order WalletReply PersistPayments (Option (List (Text × ℚ))) where
  mayAsk _ _ := True
  answered requested order reply :=
    if identified order.command reply then
      if order.command.isTransfer then some (order.command.amounts pool.coin) else requested
    else none
  mayPerform requested payments :=
    ∀ amounts ∈ requested, DebitsRequested pools pool amounts payments
  performed _ _ := some []
  mayEnd _ := True

/-- Whatever the wallet replies, all payments that a payout persists are debited as they
were requested. -/
def DebitsSent (pools : List PoolConfig) (pool : PoolConfig) (program : Payout Unit) : Prop :=
  (debitProtocol pools pool).Follows (some []) program

section Requests

variable {pools : List PoolConfig} {pool : PoolConfig} {payments : PersistPayments}

structure Owned (pool : PoolConfig) (balances : List Balance) : Prop where
  poolId : ∀ balance ∈ balances, balance.poolId = pool.id
  nonneg : ∀ balance ∈ balances, 0 ≤ balance.amount

theorem Owned.subset {left balances : List Balance} (owned : Owned pool balances)
    (fewer : left ⊆ balances) : Owned pool left where
  poolId balance member := owned.poolId balance (fewer member)
  nonneg balance member := owned.nonneg balance (fewer member)

variable (isPool : findPool pools pool.id = some pool)

include isPool

theorem accounts_nodup {database : Database} {balances : List Balance}
    (owned : Owned pool balances)
    (sound : BalanceHistory.Ledger.Sound pools ⟨database, balances⟩) :
    (balances.map fun balance => (⟨pool.id, pool.coin, balance.address⟩ : Account)).Nodup := by
  have same : balances.map Balance.account =
      balances.map fun balance => (⟨pool.id, pool.coin, balance.address⟩ : Account) := by
    apply List.map_congr_left
    intro balance member
    rw [sound.account pools member (owned.poolId balance member ▸ isPool)]
  exact same ▸ sound.unique

theorem addresses_nodup {database : Database} {balances : List Balance}
    (owned : Owned pool balances)
    (sound : BalanceHistory.Ledger.Sound pools ⟨database, balances⟩) :
    (balances.map Balance.address).Nodup := by
  have accounts := accounts_nodup isPool owned sound
  rw [← Function.comp_def (fun address => (⟨pool.id, pool.coin, address⟩ : Account))
    Balance.address, ← List.map_map] at accounts
  exact List.Nodup.of_map _ accounts

theorem decrease_eq {database next : Database} (owned : Owned pool payments.balances)
    (sound : BalanceHistory.Ledger.Sound pools ⟨database, payments.balances⟩)
    (leads : Leads (payments.transaction pool) database () next) {balance : Balance}
    (member : balance ∈ payments.balances) :
    database.balanceOf ⟨pool.id, pool.coin, balance.address⟩ -
      next.balanceOf ⟨pool.id, pool.coin, balance.address⟩ = balance.amount := by
  have distinct := accounts_nodup isPool owned sound
  rw [((persist_effect isPool (List.Nodup.of_map _ distinct) (List.Subset.refl _) owned.poolId
    sound leads).1).balance, sub_sub_cancel]
  exact Tally.amountOf_map_of_nodup distinct member Balance.amount

theorem debitsRequested_of_amounts {requested : List (Text × ℚ)}
    (owned : Owned pool payments.balances)
    (same : ∀ address, Tally.amountOf address requested =
      Tally.amountOf address (payments.balances.map fun balance =>
        (payeeAddress pool.coin balance.address, balance.amount))) :
    DebitsRequested pools pool requested payments := by
  intro database next sound leads address
  rw [same]
  congr 1
  apply List.map_congr_left
  intro balance member
  rw [decrease_eq isPool owned sound leads member]

theorem DebitsRequested.amounts {requested : List (Text × ℚ)} {database : Database}
    (debits : DebitsRequested pools pool requested payments) (owned : Owned pool payments.balances)
    (sound : BalanceHistory.Ledger.Sound pools ⟨database, payments.balances⟩)
    (fits : ∀ account, database.balanceOf account < 10 ^ 16) (address : Text) :
    Tally.amountOf address requested = Tally.amountOf address (payments.balances.map fun balance =>
      (payeeAddress pool.coin balance.address, balance.amount)) := by
  have nodup := List.Nodup.of_map _ (accounts_nodup isPool owned sound)
  rcases persist_returns isPool nodup (List.Subset.refl _) owned.poolId owned.nonneg sound fits
    payments.transactionConfirmation with ⟨next, returns⟩
  rw [debits database next sound returns.leads]
  congr 1
  apply List.map_congr_left
  intro balance member
  rw [decrease_eq isPool owned sound returns.leads member]

omit isPool

theorem amountOf_payable {balances : List Balance} (owned : Owned pool balances)
    (keyOf : Balance → Text) (address : Text) :
    Tally.amountOf address ((payable balances).map fun balance => (keyOf balance, balance.amount)) =
      Tally.amountOf address (balances.map fun balance => (keyOf balance, balance.amount)) := by
  have nonneg := owned.nonneg
  clear owned
  induction balances with
  | nil => rfl
  | cons balance balances induction =>
      have rest := induction fun other member => nonneg other (List.mem_cons_of_mem _ member)
      rw [payable, List.filter_cons]
      split_ifs with positive
      · rw [List.map_cons, List.map_cons, Tally.amountOf_cons, Tally.amountOf_cons, ← payable, rest]
      · have zero : balance.amount = 0 := by
          rw [decide_eq_true_eq, not_lt] at positive
          exact le_antisymm positive (nonneg balance List.mem_cons_self)
        rw [List.map_cons, Tally.amountOf_cons, zero, ite_self, zero_add, ← payable, rest]

theorem amountOf_payees {order : Order} {balances : List Balance} (owned : Owned pool balances)
    (isPayees : order.payees = payable balances ∨ order.payees = balances) (keyOf : Balance → Text)
    (address : Text) :
    Tally.amountOf address (order.payees.map fun balance => (keyOf balance, balance.amount)) =
      Tally.amountOf address (balances.map fun balance => (keyOf balance, balance.amount)) := by
  rcases isPayees with isPayees | isPayees
  · rw [isPayees, amountOf_payable owned]
  · rw [isPayees]

include isPool

theorem debitsRequested_of_whole {order : Order} (owned : Owned pool payments.balances)
    (pays : order.PaysFor pool.coin payments.balances)
    (whole : ∀ balance ∈ payments.balances, IsWhole pool.coin balance.amount) :
    DebitsRequested pools pool (order.command.amounts pool.coin) payments := by
  apply debitsRequested_of_amounts isPool owned
  intro address
  rw [pays.amounts, ← amountOf_payees owned pays.payees]
  congr 1
  apply List.map_congr_left
  intro balance member
  have isBalance : balance ∈ payments.balances := by
    rcases pays.payees with isPayees | isPayees
    · exact payable_subset _ (isPayees ▸ member)
    · exact isPayees ▸ member
  rw [(sentAmount_eq_iff pool.coin balance.amount).mpr (whole balance isBalance)]

end Requests

/-! ## Whole amounts are debited as they are sent -/

section Follows

variable {pools : List PoolConfig} {pool : PoolConfig}

theorem isTransfer_of_id {command : WalletCommand} {reply : WalletReply} {txId : Option Text}
    (isId : transactionId command reply = some txId) : command.isTransfer = true := by
  cases command with
  | sendMany args => rfl
  | transfer request => rfl
  | transferSplit request response => rfl
  | getInfo => cases isId
  | walletLock => cases isId
  | walletPassphrase password seconds => cases isId

def Requests (coin : CoinType) (standing : Standing)
    (requested : Option (List (Text × ℚ))) : Prop :=
  ∀ order txId, standing.settling = some (order, txId) →
    ∀ amounts ∈ requested, amounts = order.command.amounts coin

theorem Requests.answered {standing : Standing} {requested : Option (List (Text × ℚ))}
    (requests : Requests pool.coin standing requested) (order : Order) (reply : WalletReply) :
    Requests pool.coin ((payoutProtocol pool.coin).answered standing order reply)
      ((debitProtocol pools pool).answered requested order reply) := by
  intro settled txId settling amounts isAmounts
  simp only [debitProtocol] at isAmounts
  split_ifs at isAmounts with isIdentified isTransfer
  · -- A transfer: it is this order that is settled, if any.
    cases isAmounts
    simp only [payoutProtocol] at settling
    cases isId : transactionId order.command reply with
    | some given =>
        simp only [isId] at settling
        cases settling
        rfl
    | none =>
        have isOrder : order.command.isWalletLock = false := by
          cases isLock : order.command.isWalletLock with
          | false => rfl
          | true =>
              rcases order with ⟨command, payees⟩
              cases command <;> cases isLock
              cases isTransfer
        rw [isId, confirms_of_order isOrder, isId] at settling
        cases settling
  · simp only [payoutProtocol] at settling
    cases isId : transactionId order.command reply with
    | some given => exact absurd (isTransfer_of_id isId) isTransfer
    | none =>
        simp only [isId] at settling
        split_ifs at settling
        exact requests settled txId settling amounts isAmounts
  · cases isAmounts

theorem debits_of_follows (isPool : findPool pools pool.id = some pool) {standing : Standing}
    {requested : Option (List (Text × ℚ))} {program : Payout Unit}
    (follows : (payoutProtocol pool.coin).Follows standing program)
    (owned : Owned pool standing.unpaid)
    (whole : ∀ balance ∈ standing.unpaid, IsWhole pool.coin balance.amount)
    (requests : Requests pool.coin standing requested) :
    (debitProtocol pools pool).Follows requested program := by
  induction program generalizing standing requested with
  | done result => trivial
  | throw exception => trivial
  | call order resume induction =>
      refine ⟨trivial, ?_⟩
      intro reply
      apply induction reply (follows.2 reply)
      · rw [answered_unpaid]
        exact owned
      · rw [answered_unpaid]
        exact whole
      · exact requests.answered order reply
  | perform payments next induction =>
      rcases follows with ⟨⟨isUnpaid, -, order, settling, pays⟩, later⟩
      refine ⟨?_, ?_⟩
      · intro amounts isAmounts
        rw [requests order _ settling amounts isAmounts]
        exact debitsRequested_of_whole isPool (owned.subset isUnpaid) pays
          fun balance member => whole balance (isUnpaid member)
      · have left : ((payoutProtocol pool.coin).performed standing payments).unpaid ⊆
            standing.unpaid := List.filter_subset_self _
        apply induction later (owned.subset left)
        · exact fun balance member => whole balance (left member)
        · intro other txId none
          cases none

end Follows

/-! ## Other amounts are not -/

theorem isWhole_zero (coin : CoinType) : IsWhole coin 0 := ⟨0, by simp⟩

theorem whole_of_not_payable {coin : CoinType} {balances : List Balance} {balance : Balance}
    (nonneg : 0 ≤ balance.amount) (member : balance ∈ balances)
    (unpaid : balance ∉ payable balances) : IsWhole coin balance.amount := by
  rw [payable, List.mem_filter, decide_eq_true_eq, not_and, not_lt] at unpaid
  rw [le_antisymm (unpaid member) nonneg]
  exact isWhole_zero coin

theorem Order.PaysFor.sublist {coin : CoinType} {order : Order} {balances : List Balance}
    (pays : order.PaysFor coin balances) : order.payees.Sublist balances := by
  rcases pays.payees with isPayees | isPayees
  · rw [isPayees]
    exact List.filter_sublist
  · rw [isPayees]

section Converse

variable {pools : List PoolConfig} {pool : PoolConfig} {database : Database}
variable (isPool : findPool pools pool.id = some pool)
variable (fits : ∀ account, database.balanceOf account < 10 ^ 16)

include isPool fits

theorem whole_of_debits {order : Order} {payments : PersistPayments}
    (debits : DebitsRequested pools pool (order.command.amounts pool.coin) payments)
    (owned : Owned pool payments.balances)
    (sound : BalanceHistory.Ledger.Sound pools ⟨database, payments.balances⟩)
    (pays : order.PaysFor pool.coin payments.balances) {balance : Balance}
    (member : balance ∈ payments.balances) : IsWhole pool.coin balance.amount := by
  have same := debits.amounts isPool owned sound fits (payeeAddress pool.coin balance.address)
  rw [pays.amounts, ← amountOf_payees owned pays.payees] at same
  by_cases isPayee : balance ∈ order.payees
  · rw [← sentAmount_eq_iff]
    cases monero : isMonero pool.coin with
    | true =>
        -- No amount is rounded up, so the sums agree only if all amounts do.
        by_contra different
        rw [Tally.amountOf_map, Tally.amountOf_map] at same
        refine (List.sum_lt_sum _ _ ?_ ⟨balance, ?_, ?_⟩).ne same
        · exact fun other _ => sentAmount_le monero other.amount
        · exact List.mem_filter.mpr ⟨isPayee, decide_eq_true rfl⟩
        · exact lt_of_le_of_ne (sentAmount_le monero balance.amount) different
    | false =>
        have isAddress : ∀ address, payeeAddress pool.coin address = address := by
          intro address
          rw [payeeAddress, monero, if_neg Bool.false_ne_true]
        have distinct : (order.payees.map Balance.address).Nodup :=
          (pays.sublist.map _).nodup (addresses_nodup isPool owned sound)
        simp only [isAddress] at same
        rw [Tally.amountOf_map_of_nodup distinct isPayee fun other =>
            sentAmount pool.coin other.amount,
          Tally.amountOf_map_of_nodup distinct isPayee Balance.amount] at same
        exact same
  · rcases pays.payees with isPayees | isPayees
    · rw [isPayees] at isPayee
      exact whole_of_not_payable (owned.nonneg balance member) member isPayee
    · exact absurd (isPayees ▸ member) isPayee

omit isPool fits

theorem performs_of_reply {α β : Type} {convert : Value → Token α} {command : WalletCommand}
    {payees : List Balance} (reply : WalletReply) {response : DaemonResponse (Option α)}
    {next : DaemonResponse (Option α) → Payout β} {payments : PersistPayments} {rest : Payout β}
    {post : Option (List (Text × ℚ)) → β → Prop} {requested : Option (List (Text × ℚ))}
    (isTransfer : command.isTransfer = true) (isIdentified : identified command reply = true)
    (ok : received convert reply = .ok response) (performs : next response = .perform payments rest)
    (ensures : (debitProtocol pools pool).Ensures post requested
      (executeCmd convert command payees >>= next)) :
    DebitsRequested pools pool (command.amounts pool.coin) payments ∧
      (debitProtocol pools pool).Ensures post (some []) rest := by
  have goesOn := ensures.2 reply
  change (debitProtocol pools pool).Ensures post _
    (Program.attempt (received convert reply) >>= next) at goesOn
  rw [ok] at goesOn
  change (debitProtocol pools pool).Ensures post _ (next response) at goesOn
  rw [performs] at goesOn
  refine ⟨goesOn.1 _ ?_, goesOn.2⟩
  simp only [debitProtocol, isIdentified, isTransfer, if_true]
  rfl

def txId : Text := text "id"

/-- The wallet reports a success of `sendmany`. -/
def sendManySuccess : WalletReply := .received (some ⟨some (.text txId), none⟩)

theorem sendManyAmounts_eq {balances : List Balance}
    (distinct : ((payable balances).map Balance.address).Nodup) :
    sendManyAmounts balances = .ok ((payable balances).map fun balance =>
      (balance.address, roundAmount balance.amount)) := by
  have keys : ((payable balances).map fun balance =>
      (balance.address, roundAmount balance.amount)).map Prod.fst =
        (payable balances).map Balance.address := by
    rw [List.map_map]
    rfl
  rw [sendManyAmounts, toDictionary, keys, throwIf, if_neg (not_not.mpr distinct)]
  rfl

include isPool fits

theorem sendMany_whole {balances : List Balance} {args : List (Text × ℚ) → List Argument}
    {next : List (Text × ℚ) → DaemonResponse (Option Text) → Payout Unit}
    (other : isMonero pool.coin = false) (owned : Owned pool balances)
    (sound : BalanceHistory.Ledger.Sound pools ⟨database, balances⟩)
    (isArgs : ∀ amounts, sendManyAmounts balances = .ok amounts →
      ArgumentsFor (args amounts) balances)
    (performs : ∀ amounts, ∃ rest, next amounts ⟨none, some txId⟩ =
      .perform ⟨balances, some txId⟩ rest)
    (debits : DebitsSent pools pool (do
      let amounts ← Program.attempt (sendManyAmounts balances)
      if amounts.isEmpty then return ()
      else executeCmd Value.asString (.sendMany (args amounts)) (payable balances) >>=
        next amounts)) :
    ∀ balance ∈ balances, IsWhole pool.coin balance.amount := by
  have distinct : ((payable balances).map Balance.address).Nodup :=
    (List.filter_sublist.map _).nodup (addresses_nodup isPool owned sound)
  have amounts := sendManyAmounts_eq distinct
  rw [DebitsSent, amounts] at debits
  intro balance member
  change (debitProtocol pools pool).Follows _ (if _ then _ else _) at debits
  split_ifs at debits with isEmpty
  · have none : balance ∉ payable balances := by
      rw [List.isEmpty_iff, List.map_eq_nil_iff] at isEmpty
      rw [isEmpty]
      exact List.not_mem_nil
    exact whole_of_not_payable (owned.nonneg balance member) member none
  · rcases performs ((payable balances).map fun balance =>
      (balance.address, roundAmount balance.amount)) with ⟨rest, isPerform⟩
    rcases performs_of_reply sendManySuccess rfl rfl rfl isPerform debits with
      ⟨requested, -⟩
    exact whole_of_debits isPool fits requested owned sound
      (paysFor_sendMany other (isArgs _ amounts)) member

end Converse

namespace Monero

variable {pools : List PoolConfig} {pool : PoolConfig} {wallet : Wallet}
variable {requested : Option (List (Text × ℚ))}

def transferSuccess : WalletReply :=
  .received (some ⟨some (.object ⟨none, some txId, none, none, none, none⟩), none⟩)

def peersConnected : WalletReply :=
  .received (some ⟨some (.object ⟨none, none, none, none, some 3, none⟩), none⟩)

theorem retriesWithSplit_none (wallet : Wallet) : retriesWithSplit wallet none = false := by
  rw [retriesWithSplit, Bool.and_eq_false_iff]
  exact .inr rfl

section Steps

variable {β : Type} {post : Option (List (Text × ℚ)) → β → Prop} {next : Bool → Payout β}

theorem payoutBatch_goesOn {page : List Balance} {destinations : List TransferDestination}
    (built : (payable page).mapM (destination pool.coin) = .ok destinations)
    (ensures : (debitProtocol pools pool).Ensures post requested
      (payoutBatch wallet pool.coin page >>= next)) :
    (payable page ≠ [] → DebitsRequested pools pool
      (WalletCommand.amounts pool.coin (.transfer ⟨destinations, none, true⟩))
        ⟨page, some txId⟩) ∧
    ∃ left, (debitProtocol pools pool).Ensures post left (next true) := by
  rw [payoutBatch, built] at ensures
  change (debitProtocol pools pool).Ensures post requested
    ((if destinations.isEmpty then _ else _) >>= next) at ensures
  split_ifs at ensures with isEmpty
  · refine ⟨?_, requested, ensures⟩
    intro some
    have sizes := congrArg List.length (destinations_ok built)
    rw [List.isEmpty_iff.mp isEmpty, List.length_map, List.length_map, List.length_nil] at sizes
    exact absurd (List.length_eq_zero_iff.mp sizes.symm) some
  · rw [transferBatch, Program.bind_assoc] at ensures
    have performs : (if retriesWithSplit wallet none then do
          let transferSplitResponse ← executeCmd Value.asTransferSplitResponse
            (.transferSplit ⟨destinations, none, true⟩ .transferSplitResponse) (payable page)
          handleTransferSplitResponse page transferSplitResponse
        else handleTransferResponse page ⟨none, some ⟨0, some txId⟩⟩) >>= next =
          .perform ⟨page, some txId⟩ (next true) := by
      rw [retriesWithSplit_none]
      rfl
    rcases performs_of_reply transferSuccess rfl rfl rfl performs ensures with ⟨debits, goesOn⟩
    exact ⟨fun _ => debits, _, goesOn⟩

theorem payoutToPaymentId_goesOn {balance : Balance} {only : TransferDestination}
    {next : Unit → Payout β} (built : destination pool.coin balance = .ok only)
    (ensures : (debitProtocol pools pool).Ensures post requested
      (payoutToPaymentId wallet pool.coin balance >>= next)) :
    DebitsRequested pools pool (WalletCommand.amounts pool.coin
      (.transfer ⟨[only], (extractAddressAndPaymentId balance.address).2, true⟩))
        ⟨[balance], some txId⟩ ∧
    ∃ left, (debitProtocol pools pool).Ensures post left (next ()) := by
  rw [payoutToPaymentId, built] at ensures
  change (debitProtocol pools pool).Ensures post requested
    (transferToPaymentId wallet _ balance >>= (fun _ => return ()) >>= next) at ensures
  rw [transferToPaymentId, Program.bind_assoc, Program.bind_assoc] at ensures
  have performs : (if retriesWithSplit wallet none then do
        let splitResult ← executeCmd Value.asTransferResponse
          (.transferSplit ⟨[only], (extractAddressAndPaymentId balance.address).2, true⟩
            .transferResponse) [balance]
        handleTransferResponse [balance] splitResult
      else handleTransferResponse [balance] ⟨none, some ⟨0, some txId⟩⟩) >>=
        (fun _ => (return () : Payout Unit) >>= next) =
          .perform ⟨[balance], some txId⟩ (next ()) := by
    rw [retriesWithSplit_none]
    rfl
  rcases performs_of_reply transferSuccess rfl rfl rfl performs ensures with ⟨debits, goesOn⟩
  exact ⟨debits, _, goesOn⟩

theorem payoutBatches_goesOn {batches : List (List Balance)} {next : Unit → Payout β}
    (built : ∀ page ∈ batches, ∃ destinations,
      (payable page).mapM (destination pool.coin) = .ok destinations)
    (ensures : (debitProtocol pools pool).Ensures post requested
      (payoutBatches wallet pool.coin batches >>= next)) :
    (∀ page ∈ batches, payable page ≠ [] → ∃ destinations,
      (payable page).mapM (destination pool.coin) = .ok destinations ∧
      DebitsRequested pools pool
        (WalletCommand.amounts pool.coin (.transfer ⟨destinations, none, true⟩))
        ⟨page, some txId⟩) ∧
    ∃ left, (debitProtocol pools pool).Ensures post left (next ()) := by
  induction batches generalizing requested with
  | nil =>
      refine ⟨?_, requested, ensures⟩
      intro page member
      cases member
  | cons page pages induction =>
      rcases built page List.mem_cons_self with ⟨destinations, isBuilt⟩
      rw [payoutBatches, Program.bind_assoc] at ensures
      rcases payoutBatch_goesOn isBuilt ensures with ⟨debits, left, later⟩
      rcases induction (fun other member => built other (List.mem_cons_of_mem _ member)) later with
        ⟨others, last⟩
      refine ⟨?_, last⟩
      intro other member isPaid
      rcases List.mem_cons.mp member with rfl | isOther
      · exact ⟨destinations, isBuilt, debits isPaid⟩
      · exact others other isOther isPaid

theorem payoutToPaymentIds_goesOn {balances : List Balance}
    (built : ∀ balance ∈ balances, ∃ only, destination pool.coin balance = .ok only)
    (follows : (debitProtocol pools pool).Follows requested
      (payoutToPaymentIds wallet pool.coin balances)) :
    ∀ balance ∈ balances, ∃ only, destination pool.coin balance = .ok only ∧
      DebitsRequested pools pool (WalletCommand.amounts pool.coin
        (.transfer ⟨[only], (extractAddressAndPaymentId balance.address).2, true⟩))
        ⟨[balance], some txId⟩ := by
  induction balances generalizing requested with
  | nil =>
      intro balance member
      cases member
  | cons balance balances induction =>
      rcases built balance List.mem_cons_self with ⟨only, isBuilt⟩
      rw [payoutToPaymentIds] at follows
      rcases payoutToPaymentId_goesOn isBuilt follows with ⟨debits, left, later⟩
      intro other member
      rcases List.mem_cons.mp member with rfl | isOther
      · exact ⟨only, isBuilt, debits⟩
      · exact induction (fun other member => built other (List.mem_cons_of_mem _ member)) later
          other isOther

end Steps

theorem isWhole_of_isStored {coin : CoinType} (monero : isMonero coin = true)
    (other : coin ≠ .ETN) {amount : ℚ} (isStored : IsStored amount) : IsWhole coin amount := by
  rcases isStored with ⟨units, rfl⟩
  refine ⟨units, ?_⟩
  rw [unitsPerCoin, if_pos monero, smallestUnit]
  intro isETN
  exact other isETN

theorem destination_returns {balance : Balance} (nonneg : 0 ≤ balance.amount)
    (small : balance.amount < 10 ^ 16) : ∃ only, destination .ETN balance = .ok only := by
  have fits : 0 ≤ ⌊balance.amount * smallestUnit .ETN⌋ ∧
      ⌊balance.amount * smallestUnit .ETN⌋ < 2 ^ 64 := by
    rw [Int.floor_nonneg, Int.floor_lt, smallestUnit]
    push_cast
    constructor
    · linarith
    · linarith
  refine ⟨⟨payee balance.address, ⌊balance.amount * smallestUnit .ETN⌋.toNat⟩, ?_⟩
  rw [destination, floorToUInt64]
  simp only [if_pos fits]
  rfl

theorem ensurePeers_connected :
    ∃ resume, ensurePeers = .call ⟨.getInfo, []⟩ resume ∧ resume peersConnected = .done true :=
  ⟨_, rfl, congrArg Program.done (by decide)⟩

section Converse

variable {database : Database} {balances : List Balance}
variable (monero : isMonero pool.coin = true)
variable (isPool : findPool pools pool.id = some pool)
variable (fits : ∀ account, database.balanceOf account < 10 ^ 16)
variable (owned : Owned pool balances)
variable (sound : BalanceHistory.Ledger.Sound pools ⟨database, balances⟩)

include monero isPool fits owned sound

theorem whole_of_request {payees page : List Balance} {request : TransferRequest}
    (isRequest : RequestFor pool.coin request payees)
    (isPayees : payees = payable page ∨ payees = page) (isPage : page.Sublist balances)
    (debits : DebitsRequested pools pool (WalletCommand.amounts pool.coin (.transfer request))
      ⟨page, some txId⟩) :
    ∀ balance ∈ page, IsWhole pool.coin balance.amount := by
  intro balance member
  have pays : Order.PaysFor pool.coin ⟨.transfer request, payees⟩ page :=
    paysFor_of_request monero isRequest rfl isPayees
  have isBalance : balance ∈ (⟨page, some txId⟩ : PersistPayments).balances := member
  exact whole_of_debits isPool fits debits (owned.subset isPage.subset)
    (sound.sublist pools isPage) pays isBalance

theorem payoutValid_whole {library : LibCryptonote} {context : PayoutContext}
    {valid : List Balance} (isContext : context.pool = pool) (isValid : valid.Sublist balances)
    (built : ∀ balance ∈ balances, ∃ only, destination pool.coin balance = .ok only)
    (follows : (debitProtocol pools pool).Follows requested
      (payoutValid library wallet context valid)) :
    ∀ balance ∈ simpleBalances library wallet context valid ++
      paymentIdBalances library wallet context valid, IsWhole pool.coin balance.amount := by
  subst isContext
  have simple : (simpleBalances library wallet context valid).Sublist balances :=
    List.filter_sublist.trans isValid
  have other : (paymentIdBalances library wallet context valid).Sublist balances :=
    List.filter_sublist.trans isValid
  have isPage : ∀ page ∈ pages (simpleBalances library wallet context valid),
      page.Sublist balances := by
    intro page member
    rcases List.mem_map.mp member with ⟨index, -, rfl⟩
    exact ((List.take_sublist _ _).trans (List.drop_sublist _ _)).trans simple
  have pagesBuilt : ∀ page ∈ pages (simpleBalances library wallet context valid),
      ∃ destinations, (payable page).mapM (destination context.pool.coin) = .ok destinations := by
    intro page member
    apply mapM_ok_iff.mpr
    intro balance isBalance
    exact built balance ((isPage page member).subset (payable_subset page isBalance))
  rw [payoutValid] at follows
  rcases payoutBatches_goesOn pagesBuilt follows with ⟨batches, left, later⟩
  have singles := payoutToPaymentIds_goesOn
    (fun balance member => built balance (other.subset member)) later
  intro balance member
  rcases List.mem_append.mp member with isSimple | isOther
  · rw [← pages_flatten (simpleBalances library wallet context valid)] at isSimple
    rcases List.mem_flatten.mp isSimple with ⟨page, pageMember, isBalance⟩
    by_cases isPaid : payable page = []
    · exact whole_of_not_payable (owned.nonneg balance ((isPage page pageMember).subset isBalance))
        isBalance (isPaid ▸ List.not_mem_nil)
    · rcases batches page pageMember isPaid with ⟨destinations, isBuilt, debits⟩
      have isRequest : RequestFor context.pool.coin ⟨destinations, none, true⟩ (payable page) :=
        isBuilt
      exact whole_of_request monero isPool fits owned sound isRequest (.inl rfl)
        (isPage page pageMember) debits balance isBalance
  · rcases singles balance isOther with ⟨only, isBuilt, debits⟩
    have isRequest : RequestFor context.pool.coin
        ⟨[only], (extractAddressAndPaymentId balance.address).2, true⟩ [balance] := by
      rw [RequestFor, List.mapM_cons, isBuilt]
      rfl
    have isSingle : [balance].Sublist balances :=
      List.singleton_sublist.mpr (other.subset isOther)
    exact whole_of_request monero isPool fits owned sound isRequest (.inr rfl) isSingle debits
      balance List.mem_cons_self

theorem payout_whole {library : LibCryptonote} {context : PayoutContext}
    (isContext : context.pool = pool)
    (debits : DebitsSent pools pool (payout library wallet context balances)) :
    ∀ balance ∈ paidBalances library wallet context balances,
      IsWhole pool.coin balance.amount := by
  by_cases isETN : pool.coin = .ETN
  · rcases ensurePeers_connected with ⟨resume, isCall, connected⟩
    rw [DebitsSent, payout, isCall] at debits
    have goesOn := debits.2 peersConnected
    change (debitProtocol pools pool).Ensures _ _ (resume peersConnected >>= _) at goesOn
    rw [connected] at goesOn
    change (debitProtocol pools pool).Ensures _ _
      (Program.attempt (validBalances library wallet context.pool.coin balances) >>= _) at goesOn
    intro balance member
    rw [paidBalances] at member
    cases found : validBalances library wallet context.pool.coin balances with
    | error exception =>
        rw [found] at member
        cases member
    | ok valid =>
        rw [found] at member goesOn
        have isValid : valid.Sublist balances := by
          rw [validBalances_ok found]
          exact List.filter_sublist
        apply payoutValid_whole monero isPool fits owned sound isContext isValid _ goesOn balance
          member
        intro other isOther
        rw [isETN]
        apply destination_returns (owned.nonneg other isOther)
        exact (sound.covered other isOther).trans_lt (fits _)
  · intro balance member
    exact isWhole_of_isStored monero isETN
      (sound.unpaidStored balance (paidBalances_subset library wallet context balances member))

end Converse

end Monero

/-! ## Payouts -/

section Payout

variable {pools : List PoolConfig} {context : PayoutContext} {handler : PayoutHandler}
variable {database : Database}

theorem owned_balancesOverMinimum (consistent : database.Consistent) (context : PayoutContext) :
    Owned context.pool (PayoutRuns.balancesOverMinimum context database) where
  poolId := by
    intro balance member
    have parts := (List.mem_filter.mp member).2
    rw [decide_eq_true_eq] at parts
    exact parts.1
  nonneg balance member := consistent.nonneg balance (List.mem_filter.mp member).1

theorem balanceOf_lt (consistent : database.Consistent)
    (fits : ∀ balance ∈ database.balances, balance.amount < 10 ^ 16) (account : Account) :
    database.balanceOf account < 10 ^ 16 := by
  by_cases known : account ∈ database.balances.map Balance.account
  · rcases List.mem_map.mp known with ⟨balance, member, rfl⟩
    rw [← consistent.amount_eq member]
    exact fits balance member
  · have missing : database.balanceOf account = 0 := by
      apply Tally.amountOf_of_notMem
      rw [Database.balanceTally, List.map_map]
      exact known
    rw [missing]
    norm_num

theorem whole_of_debitsSent {library : Monero.LibCryptonote} {wallet : Monero.Wallet}
    {balances : List Balance} (isPool : findPool pools context.pool.id = some context.pool)
    (isHandler : payoutHandler context.pool.coin = some handler)
    (owned : Owned context.pool balances)
    (sound : BalanceHistory.Ledger.Sound pools ⟨database, balances⟩)
    (fits : ∀ account, database.balanceOf account < 10 ^ 16)
    (debits : DebitsSent pools context.pool (handler.payout library wallet context balances)) :
    ∀ balance ∈ handler.paidBalances library wallet context balances,
      IsWhole context.pool.coin balance.amount := by
  have kind := isMonero_of_handler isHandler
  cases handler with
  | exchangeCoin =>
      exact sendMany_whole isPool fits kind owned sound
        (fun amounts ok => argumentsFor_sendManyArgs context (text "default") ok)
        (fun amounts => ⟨_, rfl⟩) debits
  | bitcoin =>
      exact sendMany_whole isPool fits kind owned sound
        (fun amounts ok => argumentsFor_sendManyArgs context [] ok)
        (fun amounts => ⟨_, rfl⟩) debits
  | dash =>
      exact sendMany_whole isPool fits kind owned sound
        (fun amounts ok => Dash.argumentsFor_sendManyArgs context ok)
        (fun amounts => ⟨_, rfl⟩) debits
  | flo =>
      exact sendMany_whole isPool fits kind owned sound
        (fun amounts ok => Flo.argumentsFor_sendManyArgs context ok)
        (fun amounts => ⟨_, rfl⟩) debits
  | monero => exact Monero.payout_whole kind isPool fits owned sound rfl debits

/-- A payout of the balances over the minimum debits exactly what it sends if and only if
all balances that it may pay are whole numbers of the smallest unit of the coin. -/
theorem debitsSent_iff_whole (library : Monero.LibCryptonote) (wallet : Monero.Wallet)
    (context : PayoutContext) (isPool : findPool pools context.pool.id = some context.pool)
    (isHandler : payoutHandler context.pool.coin = some handler)
    (sound : BalanceHistory.Ledger.Sound pools ⟨database, []⟩)
    (fits : ∀ balance ∈ database.balances, balance.amount < 10 ^ 16) :
    let balances := PayoutRuns.balancesOverMinimum context database
    DebitsSent pools context.pool (handler.payout library wallet context balances) ↔
      ∀ balance ∈ handler.paidBalances library wallet context balances,
        IsWhole context.pool.coin balance.amount := by
  intro balances
  have read : BalanceHistory.Ledger.Sound pools ⟨database, balances⟩ :=
    BalanceHistory.read_sound pools sound context.pool.id context.processing.minimumPayment
  have owned : Owned context.pool balances := owned_balancesOverMinimum sound.consistent context
  constructor
  · intro debits
    exact whole_of_debitsSent isPool isHandler owned read (balanceOf_lt sound.consistent fits)
      debits
  · intro whole
    have distinct : balances.Nodup := List.Nodup.of_map _ read.unique
    apply debits_of_follows isPool (payout_follows library wallet isHandler distinct)
    · exact owned.subset (handler.paidBalances_subset library wallet context balances)
    · exact whole
    · intro order txId settling
      cases settling

end Payout

namespace PayoutRuns

namespace SamplePayouts

def credited (amount : ℚ≥0) : Database :=
  (step cryptonote [context] State.initial
    (.credit SampleRounds.poolId block [(miner, amount)] none)).database

theorem credited_sound (amount : ℚ≥0) :
    BalanceHistory.Ledger.Sound [SampleRounds.pool] ⟨credited amount, []⟩ :=
  (step_sound cryptonote [context] State.initial _ (State.sound_initial _)).ledger

def payoutOf (amount : ℚ≥0) : Payout Unit :=
  PayoutHandler.exchangeCoin.payout cryptonote wallet context
    (balancesOverMinimum context (credited amount))

end SamplePayouts

open SamplePayouts

theorem debitsSent_iff_whole_ten :
    balancesOverMinimum context (credited 10) = [⟨SampleRounds.poolId, .EXCC, miner, 10⟩] ∧
      DebitsSent [SampleRounds.pool] SampleRounds.pool (payoutOf 10) := by
  have balances : balancesOverMinimum context (credited 10) =
      [⟨SampleRounds.poolId, .EXCC, miner, 10⟩] := by
    decide +kernel
  have iff : DebitsSent [SampleRounds.pool] SampleRounds.pool (payoutOf 10) ↔
      ∀ balance ∈ balancesOverMinimum context (credited 10), IsWhole .EXCC balance.amount :=
    debitsSent_iff_whole cryptonote wallet context rfl rfl (credited_sound 10) (by decide +kernel)
  refine ⟨balances, iff.mpr ?_⟩
  intro balance member
  rw [balances, List.mem_singleton] at member
  rw [member]
  exact ⟨10 ^ 9, by norm_num [unitsPerCoin, isMonero]⟩

/-- The wallet is asked for one coin, and the balance is debited with a tenth of the
smallest unit more. -/
theorem fraction_is_lost :
    balancesOverMinimum context (credited (1000000001 / 10 ^ 9)) =
        [⟨SampleRounds.poolId, .EXCC, miner, 1000000001 / 10 ^ 9⟩] ∧
      sentAmount .EXCC (1000000001 / 10 ^ 9) = 1 ∧
      ¬DebitsSent [SampleRounds.pool] SampleRounds.pool (payoutOf (1000000001 / 10 ^ 9)) := by
  have balances : balancesOverMinimum context (credited (1000000001 / 10 ^ 9)) =
      [⟨SampleRounds.poolId, .EXCC, miner, 1000000001 / 10 ^ 9⟩] := by
    decide +kernel
  refine ⟨balances, by decide +kernel, ?_⟩
  intro debits
  have sound := credited_sound (1000000001 / 10 ^ 9)
  have read := BalanceHistory.read_sound [SampleRounds.pool] sound SampleRounds.poolId 1
  have fits : ∀ balance ∈ (credited (1000000001 / 10 ^ 9)).balances,
      balance.amount < 10 ^ 16 := by
    decide +kernel
  have whole : ∀ balance ∈ balancesOverMinimum context (credited (1000000001 / 10 ^ 9)),
      IsWhole .EXCC balance.amount :=
    whole_of_debitsSent rfl rfl (owned_balancesOverMinimum sound.consistent context) read
      (balanceOf_lt sound.consistent fits) debits
  rw [balances] at whole
  rcases whole _ List.mem_cons_self with ⟨units, isUnits⟩
  have unit : unitsPerCoin .EXCC = 10 ^ 8 := if_neg Bool.false_ne_true
  have multiple : (1000000001 : ℤ) = 10 * units := by
    rw [unit] at isUnits
    field_simp at isUnits
    exact_mod_cast isUnits
  omega

end PayoutRuns

end Miningcore.Payments
