import Miningcore.Foundation.Utf8
import Miningcore.Blockchain.Monero.Addresses
import Miningcore.Blockchain.Monero.LoginIdentity

/-! The texts that a login and a payout take for addresses, with the native library in place. -/

namespace Miningcore.Monero

open ByteLayout
open Payments.Monero (LibCryptonote MoneroNetworkType addressPrefix addressPrefixIntegrated)

namespace Base58

theorem letterAt_ascii (digit : Nat) : (letterAt digit).toNat < 0x80 := by
  have all : (alphabet.all fun letter => letter.toNat < 0x80) = true := by decide
  rw [letterAt, List.getD_eq_getElem?_getD]
  cases inAlphabet : alphabet[digit]? with
  | none => exact (by decide)
  | some letter =>
      exact of_decide_eq_true (List.all_eq_true.mp all letter (List.mem_of_getElem? inAlphabet))

theorem encodeBlock_ascii {block enc : Bytes} (encoded : encodeBlock block = some enc) :
    Utf8.IsAscii enc := by
  have isBlock : 1 ≤ block.length ∧ block.length ≤ fullBlockSize := by
    by_contra noBlock
    rw [encodeBlock, if_neg noBlock] at encoded
    cases encoded
  rw [encodeBlock_eq isBlock.1 isBlock.2, Option.some.injEq] at encoded
  intro letter inside
  rw [← encoded, List.mem_map] at inside
  rcases inside with ⟨digit, _, isLetter⟩
  rw [← isLetter]
  exact letterAt_ascii digit

theorem encodeBlocks_ascii {fullBlocks : Nat} {data enc : Bytes}
    (encoded : encodeBlocks fullBlocks data = some enc) : Utf8.IsAscii enc := by
  induction fullBlocks generalizing data enc with
  | zero =>
      cases data with
      | nil =>
          cases encoded
          exact List.forall_mem_nil _
      | cons byte rest => exact encodeBlock_ascii encoded
  | succ fullBlocks induction =>
      simp only [encodeBlocks, Option.bind_eq_bind, Option.bind_eq_some_iff] at encoded
      rcases encoded with ⟨block, first, others, behind, together⟩
      cases together
      intro letter inside
      rcases List.mem_append.mp inside with inBlock | inOthers
      · exact encodeBlock_ascii first letter inBlock
      · exact induction behind letter inOthers

theorem encode_ascii {data enc : Bytes} (encoded : encode data = some enc) : Utf8.IsAscii enc :=
  encodeBlocks_ascii encoded

theorem encode_nil {data : Bytes} (encoded : encode data = some []) : data = [] := by
  rcases decode_encode data with ⟨enc, encodes, decodes⟩
  rw [encodes, Option.some.injEq] at encoded
  rw [encoded] at decodes
  cases decodes
  rfl

end Base58

inductive NetworkAddress
  | standard (address : AccountPublicAddress)
  | integrated (address : IntegratedAddress)

namespace NetworkAddress

def account : NetworkAddress → AccountPublicAddress
  | standard address => address
  | integrated address => address.adr

def write : NetworkAddress → Bytes
  | standard address => address.write
  | integrated address => address.write

def tag (networkType : MoneroNetworkType) (coin : Configuration.CoinType) : NetworkAddress → Nat
  | standard _ => addressPrefix networkType coin
  | integrated _ => addressPrefixIntegrated networkType coin

theorem write_ne_nil (address : NetworkAddress) : address.write ≠ [] := by
  cases address with
  | standard address => exact address.write_ne_nil
  | integrated address => exact address.write_ne_nil

theorem addressPrefix_range (networkType : MoneroNetworkType) (coin : Configuration.CoinType) :
    addressPrefix networkType coin ≠ 0 ∧ addressPrefix networkType coin < 2 ^ 64 := by
  unfold addressPrefix
  split <;> decide

theorem addressPrefixIntegrated_range (networkType : MoneroNetworkType)
    (coin : Configuration.CoinType) : addressPrefixIntegrated networkType coin ≠ 0 ∧
      addressPrefixIntegrated networkType coin < 2 ^ 64 := by
  unfold addressPrefixIntegrated
  split <;> decide

theorem tag_range (networkType : MoneroNetworkType) (coin : Configuration.CoinType)
    (address : NetworkAddress) :
    address.tag networkType coin ≠ 0 ∧ address.tag networkType coin < 2 ^ 64 := by
  cases address with
  | standard _ => exact addressPrefix_range networkType coin
  | integrated _ => exact addressPrefixIntegrated_range networkType coin

theorem write_injective {address other : NetworkAddress} (same : address.write = other.write) :
    address = other := by
  have length := congrArg List.length same
  cases address with
  | standard address =>
      cases other with
      | standard other =>
          have parsed := (parseBinary_eq_some readsWritten_accountPublicAddress).mpr same
          rw [(parseBinary_eq_some readsWritten_accountPublicAddress).mpr
            (rfl : write (standard address) = address.write), Option.some.injEq] at parsed
          rw [parsed]
      | integrated other =>
          simp only [write, IntegratedAddress.write, AccountPublicAddress.write,
            List.length_append, List.Vector.toList_length] at length
          omega
  | integrated address =>
      cases other with
      | standard other =>
          simp only [write, IntegratedAddress.write, AccountPublicAddress.write,
            List.length_append, List.Vector.toList_length] at length
          omega
      | integrated other =>
          have parsed := (parseBinary_eq_some readsWritten_integratedAddress).mpr same
          rw [(parseBinary_eq_some readsWritten_integratedAddress).mpr
            (rfl : write (integrated address) = address.write), Option.some.injEq] at parsed
          rw [parsed]

variable (cnFastHash : Bytes → FixedBytes 32) (networkType : MoneroNetworkType)
  (coin : Configuration.CoinType)

def text (address : NetworkAddress) : Option Text :=
  (encodeAddr cnFastHash (address.tag networkType coin) address.write).map Utf8.ofAscii

theorem text_eq_some {address : NetworkAddress} {written : Text} :
    address.text cnFastHash networkType coin = some written ↔
      encodeAddr cnFastHash (address.tag networkType coin) address.write =
        some (Utf8.getBytes written) := by
  rw [text, Option.map_eq_some_iff]
  constructor
  · rintro ⟨enc, encoded, same⟩
    rw [← same, Utf8.getBytes_ofAscii (Base58.encode_ascii encoded)]
    exact encoded
  · intro encoded
    exact ⟨_, encoded, (Utf8.eq_ofAscii written (Base58.encode_ascii encoded)).symm⟩

theorem text_returns (address : NetworkAddress) :
    ∃ written, address.text cnFastHash networkType coin = some written := by
  let buf := writeVarint (address.tag networkType coin) ++ address.write
  rcases Base58.decode_encode (buf ++ addrChecksum cnFastHash buf) with ⟨enc, encoded, _⟩
  exact ⟨Utf8.ofAscii enc, by rw [text, encodeAddr, encoded]; rfl⟩

theorem text_ne_nil (address : NetworkAddress) :
    address.text cnFastHash networkType coin ≠ some [] := by
  intro empty
  have nothing := Base58.encode_nil ((text_eq_some cnFastHash networkType coin).mp empty)
  have length := congrArg List.length nothing
  rw [List.length_append, addrChecksum_length] at length
  cases length

theorem text_injective {address other : NetworkAddress} {written : Text}
    (isText : address.text cnFastHash networkType coin = some written)
    (alsoText : other.text cnFastHash networkType coin = some written) : address = other := by
  rw [text_eq_some] at isText alsoText
  have decoded := decodeAddr_encodeAddr cnFastHash (tag_range networkType coin address).2 isText
  rw [decodeAddr_encodeAddr cnFastHash (tag_range networkType coin other).2 alsoText,
    Option.some.injEq, Prod.mk.injEq] at decoded
  exact write_injective decoded.2.symm

end NetworkAddress

variable (cnFastHash : Bytes → FixedBytes 32) (checkKey : FixedBytes 32 → Bool)

/-- `LibCryptonote.DecodeAddress` and `DecodeIntegratedAddress`, for texts that are not empty. -/
def nativeLibrary : LibCryptonote where
  decodeAddress address := decodeAddressExport cnFastHash checkKey (Utf8.getBytes address)
  decodeIntegratedAddress address :=
    decodeIntegratedAddressExport cnFastHash checkKey (Utf8.getBytes address)

def Pool.withNativeLibrary (pool : Pool) : Pool :=
  { pool with library := nativeLibrary cnFastHash checkKey }

theorem nativeLibrary_decides (networkType : MoneroNetworkType) (coin : Configuration.CoinType)
    (written : Text) :
    ((nativeLibrary cnFastHash checkKey).decodeAddress written = addressPrefix networkType coin ∨
      (nativeLibrary cnFastHash checkKey).decodeIntegratedAddress written =
        addressPrefixIntegrated networkType coin) ↔
      ∃! address : NetworkAddress, address.account.hasKeys checkKey = true ∧
        address.text cnFastHash networkType coin = some written := by
  have unique {address : NetworkAddress}
      (found : address.account.hasKeys checkKey = true ∧
        address.text cnFastHash networkType coin = some written) :
      ∃! address : NetworkAddress, address.account.hasKeys checkKey = true ∧
        address.text cnFastHash networkType coin = some written :=
    ⟨address, found, fun other alsoFound =>
      NetworkAddress.text_injective cnFastHash networkType coin alsoFound.2 found.2⟩
  have prefixRange := NetworkAddress.addressPrefix_range networkType coin
  have integratedRange := NetworkAddress.addressPrefixIntegrated_range networkType coin
  constructor
  · rintro (standard | integrated)
    · rcases (decodeAddressExport_iff cnFastHash checkKey prefixRange.1 _).mp standard with
        ⟨_, address, keys, encoded⟩
      apply @unique (.standard address)
      exact ⟨keys, (NetworkAddress.text_eq_some cnFastHash networkType coin).mpr encoded⟩
    · have decided := decodeIntegratedAddressExport_iff cnFastHash checkKey integratedRange.1
      rcases (decided _).mp integrated with ⟨_, address, keys, encoded⟩
      apply @unique (.integrated address)
      exact ⟨keys, (NetworkAddress.text_eq_some cnFastHash networkType coin).mpr encoded⟩
  · rintro ⟨address, ⟨keys, isText⟩, _⟩
    rw [NetworkAddress.text_eq_some] at isText
    cases address with
    | standard address =>
        left
        exact (decodeAddressExport_iff cnFastHash checkKey prefixRange.1 _).mpr
          ⟨prefixRange.2, address, keys, isText⟩
    | integrated address =>
        right
        exact (decodeIntegratedAddressExport_iff cnFastHash checkKey integratedRange.1 _).mpr
          ⟨integratedRange.2, address, keys, isText⟩

theorem validateAddress_native (pool : Pool) (written : Text) :
    (pool.withNativeLibrary cnFastHash checkKey).validateAddress written = .ok true ↔
      ∃! address : NetworkAddress, address.account.hasKeys checkKey = true ∧
        address.text cnFastHash pool.networkType pool.coin = some written := by
  rw [← nativeLibrary_decides, Pool.validateAddress, throwIf]
  by_cases empty : written = []
  · rw [if_pos empty, nativeLibrary_decides, empty]
    constructor
    · intro accepted
      cases accepted
    · rintro ⟨address, ⟨_, isText⟩, _⟩
      exact absurd isText
        (NetworkAddress.text_ne_nil cnFastHash pool.networkType pool.coin address)
  · rw [if_neg empty]
    simp only [Pool.withNativeLibrary, bind, Except.bind, pure, Except.pure, Except.ok.injEq]
    exact decide_eq_true_iff

/-- A login and a payout take the same texts: each address of the network has one, and no other
text is taken. -/
theorem network_addresses (pool : Pool) (wallet : Payments.Monero.Wallet) :
    (∀ networkType coin (address : NetworkAddress),
      ∃ written, address.text cnFastHash networkType coin = some written) ∧
    (∀ written, (pool.withNativeLibrary cnFastHash checkKey).validateAddress written = .ok true ↔
      ∃! address : NetworkAddress, address.account.hasKeys checkKey = true ∧
        address.text cnFastHash pool.networkType pool.coin = some written) ∧
    ∀ coin (balance : Persistence.Balance), Payments.Monero.isNetworkAddress
        (nativeLibrary cnFastHash checkKey) wallet coin balance = true ↔
      ∃! address : NetworkAddress, address.account.hasKeys checkKey = true ∧
        address.text cnFastHash wallet.networkType coin =
          some (Payments.Monero.payee balance.address) := by
  refine ⟨NetworkAddress.text_returns cnFastHash, validateAddress_native cnFastHash checkKey pool,
    ?_⟩
  intro coin balance
  rw [Payments.Monero.isNetworkAddress, decide_eq_true_eq]
  exact nativeLibrary_decides cnFastHash checkKey wallet.networkType coin _

end Miningcore.Monero
