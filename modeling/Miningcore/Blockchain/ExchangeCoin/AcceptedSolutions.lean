import Miningcore.Blockchain.ExchangeCoin.Job
import Miningcore.Crypto.EquihashVerify

/-! The job with its native verifier: what the accepted shares of a run have solved. -/

namespace Miningcore.ExchangeCoin

open Equihash

/-- `LibMultihash.equihash_verify_excc` as the verifier. -/
def Environment.withNativeVerifier (environment : Environment) (blake2b : Blake2b)
    (memory : Memory) : Environment :=
  { environment with
    equihashVerify := fun header solution =>
      equihashVerifyExccExport blake2b memory header solution = some true }

namespace Job

def Work.indices (work : Work) : Option (List Nat) :=
  getIndicesFromMinimal work.solution btgParameters.collisionBitLength

def Work.Solved (blake2b : Blake2b) (work : Work) : Prop :=
  ∃ indices, work.indices = some indices ∧ Solution btgParameters
    (hashNumber btgParameters
      (headerHash blake2b btgParameters defaultPersonalization work.header)) indices

variable (environment : Environment) (job : Job) (blake2b : Blake2b) (memory : Memory)

theorem Work.solution_eq_of_indices {left right : Work}
    (leftLength : left.solution.length = btgParameters.solutionWidth)
    (rightLength : right.solution.length = btgParameters.solutionWidth)
    (equal : left.indices = right.indices) : left.solution = right.solution := by
  have valid := btgParameters.validBitLen_indices
  have whole (work : Work) (length : work.solution.length = btgParameters.solutionWidth) :
      btgParameters.collisionBitLength + 1 ∣ 8 * work.solution.length :=
    ⟨_, by rw [length, btgParameters.dimensions.solution]⟩
  rcases getMinimalFromIndices_of_read valid (whole left leftLength) with
    ⟨leftIndices, leftRead, _, _, leftWritten⟩
  rcases getMinimalFromIndices_of_read valid (whole right rightLength) with
    ⟨rightIndices, rightRead, _, _, rightWritten⟩
  rw [Work.indices, Work.indices, leftRead, rightRead, Option.some.injEq] at equal
  rw [equal, rightWritten, Option.some.injEq] at leftWritten
  exact leftWritten.symm

theorem verifySolution_solves {work : Work}
    (verified : verifySolution (environment.withNativeVerifier blake2b memory) work = .ok true) :
    work.solution.length = btgParameters.solutionWidth ∧ work.Solved blake2b := by
  rw [verifySolution] at verified
  split_ifs at verified
  rw [Except.ok.injEq] at verified
  have decides : Decides (equihashVerifyExccExport blake2b memory work.header work.solution) _ :=
    equihashVerifyExccExport_decides
  rcases decides with ⟨accepted, run, iff⟩
  rw [of_decide_eq_true verified, Option.some.injEq] at run
  exact solves_iff_read.mp (iff.mp run.symm).2

theorem processShareInternal_solves {submission : Submission} {validated : Validated}
    {result : Work × Blockchain.Share × Option Text}
    (processed : job.processShareInternal (environment.withNativeVerifier blake2b memory) submission
      validated = .ok result) :
    result.1.solution.length = btgParameters.solutionWidth ∧ result.1.Solved blake2b := by
  have decoded := job.processShareInternal_work _ processed
  simp only [processShareInternal, bind_eq_ok, throwIf_eq_ok, Bool.not_eq_false] at processed
  rcases processed with ⟨work, sameWork, isValid, verified, _, valid, _⟩
  rw [decoded, Except.ok.injEq] at sameWork
  rw [← sameWork, valid] at verified
  exact verifySolution_solves environment blake2b memory verified

theorem acceptedShares_solve (submissions : List Submission) :
    ∀ entry ∈ job.acceptedShares (environment.withNativeVerifier blake2b memory) submissions,
      entry.2.1.solution.length = btgParameters.solutionWidth ∧ entry.2.1.Solved blake2b := by
  refine Run.emitted_forall _ _ (fun _ => True) (fun _ => True) (fun _ _ _ => trivial) _ ?_
    [] trivial submissions (fun _ _ => trivial)
  intro registered submission entry _ _ accepted
  rcases accepted_ok _ _ _ _ accepted with ⟨validated, _, _, _, _, _, _, computed⟩
  exact processShareInternal_solves environment job blake2b memory computed

/-- In every run the shares of a job are accepted for indices that solve their header, and for
the same header and indices only once if all parameters have the spelling of the protocol. -/
theorem acceptedShares_solutions (submissions : List Submission) :
    (∀ entry ∈ job.acceptedShares (environment.withNativeVerifier blake2b memory) submissions,
      entry.2.1.Solved blake2b) ∧
    ((∀ submission ∈ submissions, submission.isCanonical = true) →
      (job.acceptedShares (environment.withNativeVerifier blake2b memory) submissions).Pairwise
        fun earlier later => (earlier.2.1.header, earlier.2.1.indices) ≠
          (later.2.1.header, later.2.1.indices)) := by
  have solve := acceptedShares_solve environment job blake2b memory submissions
  refine ⟨fun entry member => (solve entry member).2, fun canonical => ?_⟩
  have different := submissionGuard_work_pairwise job.validate
    (registrationKey (environment.withNativeVerifier blake2b memory))
    (.stratum .duplicateShare "duplicate share")
    (job.processShareInternal (environment.withNativeVerifier blake2b memory))
    (fun result => result.1) (fun submission => submission.isCanonical = true)
    (job.registrationKey_of_work _) [] submissions canonical
  apply different.imp_of_mem
  intro earlier later earlierAccepted laterAccepted work equal
  rw [Prod.mk.injEq] at equal
  have solution := Work.solution_eq_of_indices (solve earlier earlierAccepted).1
    (solve later laterAccepted).1 equal.2
  apply work
  rcases earlier with ⟨_, ⟨_, _⟩, _⟩
  rcases later with ⟨_, ⟨_, _⟩, _⟩
  simp only at equal solution
  rw [equal.1, solution]

end Job

namespace SampleShare

/-- The indices of the two solutions of the header, with the parts of BLAKE2b outputs that belong
to them. -/
def indexHashes : List (Nat × Nat) :=
  ([solution, otherSolution].filterMap fun minimal =>
    getIndicesFromMinimal minimal btgParameters.collisionBitLength).flatten.zip [
    0xe0a3de5234a4607d566f137456f199df7b6b, 0xe0a3de0cc0de31d26d5bb4a829582b35020d,
    0x9a902249b78fe8d498381454222a2773427c, 0x9a90221743f5e4e93eb2df8f00ecfa4875ee,
    0x3e79bce842a80181823bb6173993ffcf5651, 0x3e79bc4dd332380982f4bb3355e1bb0f7a3d,
    0x58855d911a54a0f9d5e1baf5017157594609, 0x58855d348bcec4e348bbaa3d3ed8e4bfa61d,
    0x4c4163f5b3b7db52b5b89767ba4833585ac2, 0x4c41636f69b418fca463dda8383e646918b1,
    0x6f16e4cc91fddeae0b83a8a6c26ae0e28fd7, 0x6f16e4564bfec12c0fe5a85b33616d71e2c2,
    0x3b70a22ff93b38ceaa9adbfcbad918247407, 0x3b70a2ee1b9db7b51821d799af1ef9f56d4e,
    0x85f7a95fc6760d6b76155c63bfa9bfa06fbe, 0x85f7a99e24d05e3cd1386bdff1fb7975172b,
    0xb0256a3d232dea84cd95d3c9064ea2cdbeb6, 0xb0256aef2ef1e74f383a223d3ba3c5244310,
    0xa7a1293278cda6260ebfff7729cad2d0f3, 0xa7a1fb3fa4fc9d7c29a1467c6add980246,
    0x1236adac489eef9b53af895709538befd291, 0x1236ada14e8726fdd9b766116468ce31dcb5,
    0xbeed0a83e77622382517ab06c68b1440710e, 0xbeed0a8ee16fd7ae00e476cc9d031cc64468,
    0x1b0cdf3f5dd8422e30bb4f0758c57140a7a1, 0x1b0cdf7a08893258f8e52b524faad5ad9d75,
    0xc33f395391670f3728768d86d70842bf6fca, 0xc33f3916c43638a3e619b63ed506088edec4,
    0x1261df4e73e0eaab2f90d65254c81200d5d, 0x1261dee6df61cc12372ed7e7d4113f6eece,
    0x7bab8ebe00f01d39352f30cd63d997824a45, 0x7bab8ea48a3848b0a2f652fa08f4b322fa6b,
    0x9579d1ae0689aac84f39729f2c494fb7944c, 0x9579d1f10bf898da3308a8ef2a6af9d95a76,
    0x5da9e56088f168209a88ffed9af1216107be, 0x5da9e53f8580ef0266886a2d7805cd2ded11,
    0xc7d7f1f0dbb79e4eb2c1bd6f612e70e84485, 0xc7d7f1a7bcaaba516ee1ff8b53afc5388293,
    0x5ea596b67465fbf6c685e3157f13f30aacd2, 0x5ea596e113786ad99a4fca359a909ff70e63,
    0xc41b817d5ed3fd8920e0d0e42ccf0ba6b52, 0xc41b8e0371918c4531d214307d78e6698a2,
    0x8727a572062dfca2ea5e4712ccb845504fe5, 0x8727a585e4d97b1d902920771a14d2751542,
    0x620a7641ca7513fa8cfb55b2678815a2476e, 0x620a763757e8e6d83d873e7885c39224f2ba,
    0x4c33e3224f0ef08e78a1c8c1c56d793c8af4, 0x4c33e354d293a50f7262cc577366a2db5543,
    0x83f30363b2b075374d06e205e533a9a18200, 0x83f3039aa2a778be411f8651e32d496c5040,
    0xc99a820854a314d590af3d4ed068ee1cbedb, 0xc99a82f144b42431e6a0d639ff280440076d,
    0xa6e47acc197e4996d5b6979775724b2ca291, 0xa6e47a00b94e84af6ac52e042c5aad6c493a,
    0xe193830785a2424aa5b3f12dc8f8cd362525, 0xe19383cb2592b21e60de6642100050113162,
    0x5e20489ac4c366b473f9865d993e793c2bda, 0x5e2048bbc4cca99669265ccfdeac88cdda79,
    0x5302896abf959cb3897871d310f361c6f3e2, 0x5302894bbf9a13466f2a203869a4bbcc5ca1,
    0x2dca5a9b9725a19f5fa7878e24b33b730fcc, 0x2dca5aba0c4b75dd7d4e429d12a478db0d98,
    0xdbe9bcbf261a6b8c0c68878bab3c869db4c0, 0xdbe9bc9ebd74ff19d204683eff42a9afff68]

def blake2b : Blake2b := fun personalization outLen data =>
  let ofIndex (index : Nat) : Nat := ((indexHashes.lookup index).getD 0)
  let g := LittleEndian.decode (data.drop header.length)
  if personalization = defaultPersonalization ++ LittleEndian.encode 4 144 ++
      LittleEndian.encode 4 5 ∧ data.take header.length = header then
    FixedBytes.ofNumber outLen
      ((ofIndex (3 * g) * 2 ^ 144 + ofIndex (3 * g + 1)) * 2 ^ 144 + ofIndex (3 * g + 2))
  else List.Vector.replicate outLen 0

end SampleShare

theorem Job.acceptedShares_solutions_two :
    let memory : Memory := fun _ _ => List.Vector.replicate _ 0
    let accepted := SampleShare.job.acceptedShares
      (SampleShare.environment.withNativeVerifier SampleShare.blake2b memory)
      [SampleShare.submission, SampleShare.submissionOf SampleShare.otherSolution]
    accepted.length = 2 ∧ (∀ entry ∈ accepted, entry.2.1.Solved SampleShare.blake2b) ∧
      accepted.Pairwise fun earlier later => (earlier.2.1.header, earlier.2.1.indices) ≠
        (later.2.1.header, later.2.1.indices) :=
  have solutions := acceptedShares_solutions SampleShare.environment SampleShare.job
    SampleShare.blake2b (fun _ _ => List.Vector.replicate _ 0)
    [SampleShare.submission, SampleShare.submissionOf SampleShare.otherSolution]
  ⟨by decide +kernel, solutions.1, solutions.2 (by decide)⟩

end Miningcore.ExchangeCoin
