import Miningcore.Extensions.StringExtensions
import Miningcore.Foundation.OnceOnly
import Mathlib.Data.Rat.Defs
import Mathlib.Algebra.Order.Ring.Rat

/-! What the jobs of all coins share: the exceptions a submission can end in,
the test of a share's difficulty against its worker, and the set of
submissions that guards a job against repeated shares.

Difficulties are doubles in the source; the model computes with them exactly. -/

namespace Miningcore

inductive StratumError
  | other
  | jobNotFound
  | duplicateShare
  | lowDifficultyShare
  | unauthorizedWorker
  | notSubscribed
  | minusOne
deriving DecidableEq, Repr

/-- What processing a submission can throw. Only the `stratum` exceptions are
answered to the miner; a low-difficulty share and a bad nonce are two of them, kept
apart because their messages quote a value. -/
inductive Exception
  | stratum (code : StratumError) (message : String)
  | lowDifficultyShare (shareDiff : ℚ)
  | badNonce (fullNonceHex : Text)
  | argument (message : String)
  | nullReference
  | format
  | overflow
  | divideByZero
  | endOfStream
  | indexOutOfRange
  | invalidOperation
  | database
  | exception (message : String)
deriving DecidableEq, Repr

def throwIf (condition : Prop) [Decidable condition] (exception : Exception) :
    Except Exception Unit :=
  if condition then .error exception else .ok ()

@[simp] theorem throwIf_eq_ok (condition : Prop) [Decidable condition] (exception : Exception)
    (result : Unit) : throwIf condition exception = .ok result ↔ ¬condition := by
  by_cases holds : condition <;> simp [throwIf, holds]

@[simp] theorem bind_eq_ok {α β : Type} (first : Except Exception α)
    (next : α → Except Exception β) (result : β) :
    (first >>= next) = .ok result ↔ ∃ value, first = .ok value ∧ next value = .ok result := by
  cases first <;> simp [bind, Except.bind]

@[simp] theorem pure_eq_ok {α : Type} (value result : α) :
    (pure value : Except Exception α) = .ok result ↔ value = result := by
  simp [pure, Except.pure]

theorem exists_ok_of_isSome {Failure Result : Type} {outcome : Except Failure Result}
    (isOk : outcome.toOption.isSome = true) : ∃ result, outcome = .ok result := by
  cases outcome with
  | error failure => cases isOk
  | ok result => exact ⟨result, rfl⟩

theorem mapM_ok_iff {α β : Type} {transform : α → Except Exception β} {values : List α} :
    (∃ results, values.mapM transform = .ok results) ↔
      ∀ value ∈ values, ∃ result, transform value = .ok result := by
  induction values with
  | nil => simp [List.mapM_nil]
  | cons value values induction =>
      simp only [List.mapM_cons, bind_eq_ok, pure_eq_ok, List.forall_mem_cons, ← induction]
      constructor
      · rintro ⟨_, first, isFirst, rest, isRest, -⟩
        exact ⟨⟨first, isFirst⟩, rest, isRest⟩
      · rintro ⟨⟨first, isFirst⟩, rest, isRest⟩
        exact ⟨_, first, isFirst, rest, isRest, rfl⟩

/-- `Parse` throws where `TryParse` returns false. -/
def Exception.ofParseError : NumberParsing.ParseError → Exception
  | .format => .format
  | .overflow => .overflow

/-- `uint.Parse(value, NumberStyles.HexNumber)`. -/
def parseUInt32 (value : Text) : Except Exception UInt32 :=
  match NumberParsing.parseHexNumber 32 value with
  | .ok number => .ok (UInt32.ofNat number)
  | .error error => .error (.ofParseError error)

theorem parseUInt32_ok {value : Text} {number : UInt32} (parsed : parseUInt32 value = .ok number) :
    NumberParsing.parseHexNumber 32 value = .ok number.toNat := by
  simp only [parseUInt32] at parsed
  split at parsed
  · rename_i result equation
    have fits := NumberParsing.parseHexNumber_lt equation
    cases parsed
    rw [equation, UInt32.toNat_ofNat', Nat.mod_eq_of_lt fits]
  · cases parsed

theorem parseUInt32_injective (culture : Culture) {left right : Text} {number : UInt32}
    (leftHex : left.isHex = true) (rightHex : right.isHex = true)
    (sameLength : left.length = right.length)
    (leftParsed : parseUInt32 left = .ok number) (rightParsed : parseUInt32 right = .ok number) :
    culture.toLower left = culture.toLower right := by
  rw [culture.toLower_hex left leftHex, culture.toLower_hex right rightHex]
  exact NumberParsing.parseHexNumber_injective 32 left right number.toNat leftHex rightHex
    sameLength (parseUInt32_ok leftParsed) (parseUInt32_ok rightParsed)

theorem parseUInt32_of_isHex {value : Text} (hex : value.isHex = true)
    (isLength : value.length = 8) :
    ∃ number, parseUInt32 value = .ok number ∧
      LittleEndian.encode 4 number.toNat = (StringExtensions.hexPairs value).reverse := by
  have fits : NumberParsing.digitsValue value < 2 ^ 32 := by
    have bound := NumberParsing.digitsValue_lt value hex
    rw [isLength] at bound
    exact bound
  have nonempty : value ≠ [] := by
    intro isEmpty
    rw [isEmpty] at isLength
    cases isLength
  have parsed := NumberParsing.parseHexNumber_of_isHex 32 value hex nonempty
  rw [if_pos fits] at parsed
  refine ⟨UInt32.ofNat (NumberParsing.digitsValue value), ?_, ?_⟩
  · rw [parseUInt32, parsed]
  · have bytes := LittleEndian.encode_decode (StringExtensions.hexPairs value).reverse
    rw [List.length_reverse, StringExtensions.hexPairs_length, isLength] at bytes
    rw [UInt32.toNat_ofNat', Nat.mod_eq_of_lt fits,
      StringExtensions.digitsValue_eq_decode value hex (by omega)]
    exact bytes

/-- `Contract.Requires<ArgumentException>(!string.IsNullOrEmpty(value), ...)`;
`none` is null. -/
def requireNonEmpty (name : String) (value : Option Text) : Except Exception Text :=
  match value with
  | some (unit :: rest) => .ok (unit :: rest)
  | _ => .error (.argument (name ++ " must not be empty"))

theorem requireNonEmpty_ok {name : String} {value : Option Text} {result : Text}
    (required : requireNonEmpty name value = .ok result) : value = some result := by
  unfold requireNonEmpty at required
  split at required
  · rw [Except.ok.inj required]
  · cases required

/-- A method call on a null string throws. -/
def dereference (value : Option Text) : Except Exception Text :=
  match value with
  | none => .error .nullReference
  | some given => .ok given

@[simp] theorem dereference_eq_ok (value : Option Text) (result : Text) :
    dereference value = .ok result ↔ value = some result := by
  cases value <;> simp [dereference]

/-! ## Share difficulty -/

/-- The difficulty state of a worker that a job reads: the current difficulty,
the one before it, and whether `VarDiff?.LastUpdate` is set. -/
structure WorkerDifficulty where
  difficulty : ℚ
  previousDifficulty : Option ℚ
  retargeted : Bool
deriving DecidableEq, Repr

/-- The fields of `BitcoinWorkerContext` that processing a share reads. -/
structure BitcoinWorkerContext where
  extraNonce1 : Text
  difficulty : WorkerDifficulty

/-- `shareDiff / difficulty < 0.99`. Dividing by a zero difficulty gives an
infinity or a NaN, and neither is below the bound. -/
def missesDifficulty (shareDiff difficulty : ℚ) : Bool :=
  difficulty != 0 && decide (shareDiff / difficulty < 99 / 100)

/-- The difficulty a share is credited with. A block candidate is credited with
the current difficulty untested; another share has to meet the current
difficulty or, after a retarget, the previous one. -/
def stratumDifficulty (worker : WorkerDifficulty) (shareDiff : ℚ) (isBlockCandidate : Bool) :
    Except Exception ℚ :=
  if !isBlockCandidate && missesDifficulty shareDiff worker.difficulty then
    match worker.retargeted, worker.previousDifficulty with
    | true, some previous =>
        if missesDifficulty shareDiff previous then
          .error (.lowDifficultyShare shareDiff)
        else
          .ok previous
    | _, _ => .error (.lowDifficultyShare shareDiff)
  else
    .ok worker.difficulty

/-- `(double) new BigRational(diff1, hash)`. -/
def shareDifficulty (diff1 hash : Nat) : Except Exception ℚ :=
  if hash = 0 then .error .divideByZero else .ok (diff1 / hash)

/-- The fields of a `Share` that processing a submission fills in; the rest keep
the defaults of the class. -/
structure Blockchain.Share where
  blockHeight : Nat
  networkDifficulty : ℚ := 0
  difficulty : ℚ
  isBlockCandidate : Bool := false
  blockReward : ℚ := 0
  blockHash : Option Text := none
  miner : Option Text := none
  worker : Option Text := none
  transactionConfirmationData : Option Text := none
deriving DecidableEq, Repr

/-! ## Submission sets -/

/-- The set of submissions a job has seen, most coins' `HashSet<string>`. -/
abbrev Submissions (Key : Type) := List Key

/-- `RegisterSubmit` once the key is built: fail if it is known, else record it. -/
def registerSubmit {Key : Type} [DecidableEq Key] (submissions : Submissions Key) (key : Key) :
    Option (Submissions Key) :=
  if key ∈ submissions then none else some (key :: submissions)

/-- The common frame of the `ProcessShare` methods: validate the request,
register its key, then compute the share. The key stays registered whatever
the computation ends in. -/
def processSubmission {Request Validated Key Result : Type} [DecidableEq Key]
    (validate : Request → Except Exception Validated)
    (key : Request → Validated → Except Exception Key)
    (duplicate : Exception)
    (compute : Request → Validated → Except Exception Result)
    (submissions : Submissions Key) (request : Request) :
    Submissions Key × Except Exception Result :=
  match validate request with
  | .error exception => (submissions, .error exception)
  | .ok validated =>
      match key request validated with
      | .error exception => (submissions, .error exception)
      | .ok submissionKey =>
          match registerSubmit submissions submissionKey with
          | none => (submissions, .error duplicate)
          | some registered => (registered, compute request validated)

section ProcessSubmission

variable {Request Validated Key Result : Type} [DecidableEq Key]
variable (validate : Request → Except Exception Validated)
variable (key : Request → Validated → Except Exception Key)
variable (duplicate : Exception)
variable (compute : Request → Validated → Except Exception Result)

theorem processSubmission_ok {submissions registered : Submissions Key} {request : Request}
    {result : Result}
    (processed : processSubmission validate key duplicate compute submissions request =
      (registered, .ok result)) :
    ∃ validated submissionKey, validate request = .ok validated ∧
      key request validated = .ok submissionKey ∧ submissionKey ∉ submissions ∧
      registered = submissionKey :: submissions ∧ compute request validated = .ok result := by
  unfold processSubmission at processed
  split at processed
  · cases processed
  · rename_i validated validation
    split at processed
    · cases processed
    · rename_i submissionKey keyed
      unfold registerSubmit at processed
      by_cases known : submissionKey ∈ submissions
      · simp [known] at processed
      · simp only [known, if_false, Prod.mk.injEq] at processed
        exact ⟨validated, submissionKey, validation, keyed, known, processed.1.symm, processed.2⟩

theorem processSubmission_subset (submissions : Submissions Key) (request : Request) :
    submissions ⊆ (processSubmission validate key duplicate compute submissions request).1 := by
  unfold processSubmission registerSubmit
  split
  · exact List.Subset.refl _
  · split
    · exact List.Subset.refl _
    · split
      · exact List.Subset.refl _
      · rename_i equation
        split_ifs at equation
        cases equation
        exact List.subset_cons_self _ _

theorem accepted_ok {submissions : Submissions Key} {request : Request}
    {acceptance : Request × Result}
    (accepted : (match (processSubmission validate key duplicate compute submissions request).2 with
      | .ok result => some (request, result)
      | .error _ => none) = some acceptance) :
    ∃ validated registeredKey, acceptance.1 = request ∧ validate request = .ok validated ∧
      key request validated = .ok registeredKey ∧ registeredKey ∉ submissions ∧
      (processSubmission validate key duplicate compute submissions request).1 =
        registeredKey :: submissions ∧
      compute request validated = .ok acceptance.2 := by
  split at accepted
  · rename_i result equation
    cases accepted
    rcases processSubmission_ok validate key duplicate compute
      (Prod.ext rfl equation : processSubmission validate key duplicate compute submissions
        request = (_, .ok result)) with
      ⟨validated, registeredKey, validation, keyed, fresh, registered, computed⟩
    exact ⟨validated, registeredKey, rfl, validation, keyed, fresh, registered, computed⟩
  · cases accepted

def submissionKey (request : Request) : Except Exception Key := do
  key request (← validate request)

def submissionGuard :
    OnceOnly (Submissions Key) Request (Request × Result) (Except Exception Key) where
  step submissions request :=
    (processSubmission validate key duplicate compute submissions request).1
  accepted submissions request :=
    match (processSubmission validate key duplicate compute submissions request).2 with
    | .ok result => some (request, result)
    | .error _ => none
  key acceptance := submissionKey validate key acceptance.1
  closed submissions target := ∃ known ∈ submissions, target = .ok known
  valid _ := True
  step_valid _ _ _ := trivial
  accepted_open submissions request acceptance _ accepted := by
    rcases accepted_ok validate key duplicate compute accepted with
      ⟨validated, registeredKey, sameRequest, validation, keyed, fresh, -, -⟩
    rintro ⟨known, member, equal⟩
    simp only [submissionKey, sameRequest, validation, bind, Except.bind, keyed,
      Except.ok.injEq] at equal
    exact fresh (equal ▸ member)
  accepted_closes submissions request acceptance _ accepted := by
    rcases accepted_ok validate key duplicate compute accepted with
      ⟨validated, registeredKey, sameRequest, validation, keyed, -, registered, -⟩
    refine ⟨registeredKey, ?_, ?_⟩
    · rw [registered]
      exact List.mem_cons_self
    · simp only [submissionKey, sameRequest, validation, bind, Except.bind, keyed]
  closed_stays submissions request target _ closed := by
    rcases closed with ⟨known, member, equal⟩
    exact ⟨known, processSubmission_subset validate key duplicate compute submissions request
      member, equal⟩

theorem submissionGuard_work_pairwise {Work : Type} (work : Result → Work)
    (admissible : Request → Prop)
    (key_of_work : ∀ left leftValidated leftResult right rightValidated rightResult,
      admissible left → admissible right →
      validate left = .ok leftValidated → validate right = .ok rightValidated →
      compute left leftValidated = .ok leftResult →
      compute right rightValidated = .ok rightResult →
      work leftResult = work rightResult →
      key left leftValidated = key right rightValidated)
    (submissions : Submissions Key) (requests : List Request)
    (allAdmissible : ∀ request ∈ requests, admissible request) :
    ((submissionGuard validate key duplicate compute).acceptances submissions
      requests).Pairwise fun earlier later => work earlier.2 ≠ work later.2 := by
  let processed : Request × Result → Prop := fun acceptance =>
    admissible acceptance.1 ∧ ∃ validated, validate acceptance.1 = .ok validated ∧
      compute acceptance.1 validated = .ok acceptance.2
  apply (submissionGuard validate key duplicate compute).work_pairwise
    (fun acceptance => work acceptance.2) processed
  · rintro left right ⟨leftAdmissible, leftValidated, leftValidation, leftComputed⟩
      ⟨rightAdmissible, rightValidated, rightValidation, rightComputed⟩ equal
    change submissionKey validate key left.1 = submissionKey validate key right.1
    simp only [submissionKey, leftValidation, rightValidation, bind, Except.bind]
    exact key_of_work left.1 leftValidated left.2 right.1 rightValidated right.2
      leftAdmissible rightAdmissible leftValidation rightValidation leftComputed
      rightComputed equal
  · trivial
  · refine Run.emitted_forall _ _ (fun _ => True) admissible (fun _ _ _ => trivial) processed ?_
      submissions trivial requests allAdmissible
    intro state request acceptance _ requestAdmissible accepted
    rcases accepted_ok validate key duplicate compute accepted with
      ⟨validated, _, sameRequest, validation, _, _, _, computed⟩
    refine ⟨sameRequest ▸ requestAdmissible, validated, ?_, ?_⟩
    · rw [sameRequest, validation]
    · rw [sameRequest, computed]

end ProcessSubmission

end Miningcore
