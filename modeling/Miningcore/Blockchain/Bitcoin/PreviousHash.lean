import Miningcore.Blockchain.Bitcoin.Job
import Miningcore.Blockchain.ZCash.MiningNotify
import Miningcore.Extensions.ArrayExtensions

/-! The previous hash that `BitcoinJob.Init` notifies, and the one in the header.

The daemon writes the hash as a number. The notification has its words in reverse order, a miner
reverses the bytes of each word, and the header has all bytes of the hash reversed. -/

namespace Miningcore.Bitcoin

open ArrayExtensions
open StringExtensions (hexToByteArray)
open ZCash (HashText NBitcoin)

def previousBlockHashReversedHex (culture : Culture) (pool : CharPool) (hash : HashText) :
    Except Exception Text := do
  let bytes ← reverseByteOrder (hexToByteArray culture hash.text)
  toHexString pool (some bytes) none none false

def Job.withPreviousBlockhash (nbitcoin : NBitcoin) (job : Job) (hash : HashText) : Job :=
  { job with previousBlockhash := nbitcoin.parse hash }

theorem exists_hashText (bytes : FixedBytes 32) :
    ∃ hash : HashText, ∀ culture, hexToByteArray culture hash.text = bytes.toList := by
  have length : (StringExtensions.toHexString bytes.toList).length = 64 := by
    rw [StringExtensions.toHexString_length, bytes.toList_length]
  refine ⟨⟨_, StringExtensions.isHex_toHexString bytes.toList, length⟩, ?_⟩
  intro culture
  exact StringExtensions.hexToByteArray_toHexString culture bytes.toList

theorem previousBlockhash_in_header (environment : Environment) (job : Job)
    (coinbaseHash : FixedBytes 32) (nTime nonce : UInt32) :
    ((job.serializeHeader environment coinbaseHash nTime nonce).drop 4).take 32 =
      job.previousBlockhash.toList := by
  rw [Job.serializeHeader, List.flatten_cons, List.flatten_cons,
    List.drop_left' (LittleEndian.encode_length 4 _)]
  exact List.take_left' job.previousBlockhash.toList_length

/-- The words of the notified hash are those of the hash in reverse order, and a miner that swaps
the bytes of each has what the header holds. -/
theorem previousBlockHash_agrees (bytes : FixedBytes 32) :
    ∃ notified : FixedBytes 32, reverseByteOrder bytes.toList = .ok notified.toList ∧
      words notified.toList = (words bytes.toList).reverse ∧
      reverseByteOrder notified.toList = .ok bytes.toList ∧
      swapWords notified.toList = bytes.toList.reverse ∧
      ∀ (environment : Environment) (nbitcoin : NBitcoin) (pool : CharPool) (hash : HashText),
        hexToByteArray environment.culture hash.text = bytes.toList →
        previousBlockHashReversedHex environment.culture pool hash =
            .ok (StringExtensions.toHexString notified.toList) ∧
          ∀ (job : Job) (coinbaseHash : FixedBytes 32) (nTime nonce : UInt32),
            (((job.withPreviousBlockhash nbitcoin hash).serializeHeader environment coinbaseHash
              nTime nonce).drop 4).take 32 = swapWords notified.toList := by
  rcases reverseByteOrder_spec bytes with ⟨notified, forward, reversed, back, swapped⟩
  refine ⟨notified, forward, reversed, back, swapped, ?_⟩
  intro environment nbitcoin pool hash isHash
  constructor
  · have nonempty : notified.toList ≠ [] := by
      rw [← List.length_pos_iff, notified.toList_length]
      omega
    rw [previousBlockHashReversedHex, isHash, forward]
    exact toHexString_whole pool nonempty false
  · intro job coinbaseHash nTime nonce
    rw [previousBlockhash_in_header, swapped, ← isHash, nbitcoin.reverse_hexToByteArray]
    rfl

end Miningcore.Bitcoin
