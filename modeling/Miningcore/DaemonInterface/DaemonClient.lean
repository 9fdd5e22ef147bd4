import Miningcore.Stratum.ShareAcceptance

/-! `DaemonClient`: what a caller gets from the replies of a daemon or a wallet.

A result token is represented by the outcome of its conversion, `ToObject`, to the type
that the caller asks for: null, an object, or an exception. -/

namespace Miningcore.DaemonInterface

structure JsonRpcException where
  code : Int
  message : Option Text
deriving DecidableEq

abbrev Token (α : Type) := Except Exception (Option α)

structure JsonRpcResponse (α : Type) where
  result : Option (Token α)
  error : Option JsonRpcException

/-- What becomes of a request. Without a reply, and with one that is no JSON, its task
ends in an exception. An empty body is read as null. -/
inductive Reply (α : Type)
  | lost (exception : Exception)
  | received (body : Option α)

structure DaemonResponse (α : Type) where
  error : Option JsonRpcException
  response : α

def toObject {α : Type} : Option (Token α) → Except Exception (Option α)
  | none => .ok none
  | some token => token

/-- `ExecuteCmdSingleAsync`. It waits for the task itself, so a lost reply throws; the
result is converted before the error is looked at. -/
def executeCmdSingle {α : Type} :
    Reply (JsonRpcResponse α) → Except Exception (DaemonResponse (Option α))
  | .lost exception => .error exception
  | .received none => .ok { error := none, response := none }
  | .received (some body) => do
      let response ← toObject body.result
      return { error := body.error, response }

/-- `ExecuteCmdAnyAsync`, for the task that completes first. A task that ended in an
exception becomes an error. -/
def executeCmdAny {α : Type} :
    Reply (JsonRpcResponse α) → Except Exception (DaemonResponse (Option α))
  | .lost _ => .ok { error := some ⟨-500, none⟩, response := none }
  | reply => executeCmdSingle reply

def Reply.map {α β : Type} (transform : α → β) : Reply α → Reply β
  | .lost exception => .lost exception
  | .received body => .received (body.map transform)

/-- `MapDaemonBatchResponse` for one element of the array. -/
def mapDaemonBatchResponse {α : Type} :
    Option (JsonRpcResponse α) → Except Exception (DaemonResponse (Option (Token α)))
  | none => .error .nullReference
  | some element => .ok { error := element.error, response := element.result }

/-- `ExecuteBatchAnyAsync`, for the task that completes first. Reading the result of a
task that ended in an exception throws that exception. -/
def executeBatchAny {α : Type} :
    Reply (List (Option (JsonRpcResponse α))) →
      Except Exception (Option (List (DaemonResponse (Option (Token α)))))
  | .lost exception => .error exception
  | .received none => .ok none
  | .received (some elements) => do
      let responses ← elements.mapM mapDaemonBatchResponse
      return some responses

/-- `results[index]`. -/
def elementAt {α : Type} (results : Option (List α)) (index : Nat) : Except Exception α :=
  match results with
  | none => .error .nullReference
  | some elements =>
      match elements[index]? with
      | none => .error .indexOutOfRange
      | some element => .ok element

/-- `Error?.Message ?? Error?.Code.ToString(CultureInfo.InvariantCulture)`, where an
error has been looked for. -/
def errorText (error : Option JsonRpcException) : Option Text :=
  error.map fun given => given.message.getD (text (toString given.code))

theorem mapM_mapDaemonBatchResponse {α : Type} (elements : List (Option (JsonRpcResponse α)))
    (results : List (DaemonResponse (Option (Token α)))) :
    elements.mapM mapDaemonBatchResponse = .ok results ↔
      ∃ responses : List (JsonRpcResponse α), elements = responses.map some ∧
        results = responses.map fun response => ⟨response.error, response.result⟩ := by
  induction elements generalizing results with
  | nil =>
      constructor
      · intro mapped
        cases mapped
        exact ⟨[], rfl, rfl⟩
      · rintro ⟨responses, noElements, rfl⟩
        rw [List.map_eq_nil_iff.mp noElements.symm]
        rfl
  | cons element elements induction =>
      rw [List.mapM_cons, bind_eq_ok]
      constructor
      · rintro ⟨first, mapped, rest⟩
        rw [bind_eq_ok] at rest
        rcases rest with ⟨others, othersMapped, returned⟩
        rw [pure_eq_ok] at returned
        rcases (induction others).mp othersMapped with ⟨responses, rfl, rfl⟩
        cases element with
        | none => cases mapped
        | some response =>
            cases mapped
            exact ⟨response :: responses, rfl, returned.symm⟩
      · rintro ⟨responses, isMapped, rfl⟩
        cases responses with
        | nil => cases isMapped
        | cons response responses =>
            cases isMapped
            refine ⟨⟨response.error, response.result⟩, rfl, ?_⟩
            rw [bind_eq_ok]
            exact ⟨_, (induction _).mpr ⟨responses, rfl, rfl⟩, rfl⟩

theorem executeBatchAny_ok {α : Type} {reply : Reply (List (Option (JsonRpcResponse α)))}
    {results : Option (List (DaemonResponse (Option (Token α))))} :
    executeBatchAny reply = .ok results ↔
      (reply = .received none ∧ results = none) ∨
        ∃ responses : List (JsonRpcResponse α), reply = .received (some (responses.map some)) ∧
          results = some (responses.map fun response => ⟨response.error, response.result⟩) := by
  cases reply with
  | lost exception => simp [executeBatchAny]
  | received body =>
      cases body with
      | none => simp [executeBatchAny, eq_comm]
      | some elements =>
          simp only [executeBatchAny, bind_eq_ok, pure_eq_ok, mapM_mapDaemonBatchResponse,
            Reply.received.injEq, reduceCtorEq, false_and, false_or, Option.some.injEq]
          constructor
          · rintro ⟨mapped, ⟨responses, isElements, rfl⟩, isResult⟩
            exact ⟨responses, isElements, isResult.symm⟩
          · rintro ⟨responses, isElements, isResult⟩
            exact ⟨_, ⟨responses, isElements, rfl⟩, isResult.symm⟩

theorem elementAt_ok {α : Type} {results : Option (List α)} {index : Nat} {element : α} :
    elementAt results index = .ok element ↔
      ∃ elements, results = some elements ∧ elements[index]? = some element := by
  cases results with
  | none => simp [elementAt]
  | some elements =>
      simp only [elementAt, Option.some.injEq, exists_eq_left']
      split
      · simp_all
      · simp_all

theorem toString_ne_nil (code : Int) : text (toString code) ≠ [] := by
  have nonempty : ∀ number : Nat, text number.repr ≠ [] := by
    intro number isEmpty
    rw [text, List.map_eq_nil_iff, String.toList_eq_nil_iff] at isEmpty
    exact Nat.repr_ne_empty isEmpty
  cases code with
  | ofNat number => exact nonempty number
  | negSucc number =>
      intro isEmpty
      rw [text, List.map_eq_nil_iff, String.toList_eq_nil_iff] at isEmpty
      have appended : toString (Int.negSucc number) = "-" ++ (number + 1).repr := rfl
      rw [appended, String.append_eq_empty_iff] at isEmpty
      exact Nat.repr_ne_empty isEmpty.2

theorem errorText_empty_iff (error : Option JsonRpcException) :
    (errorText error).getD [] = [] ↔ ∀ given ∈ error, given.message = some [] := by
  cases error with
  | none => simp [errorText]
  | some given =>
      cases message : given.message with
      | none =>
          simp only [errorText, message, Option.map_some, Option.getD_none, Option.getD_some,
            Option.mem_some_iff, forall_eq', reduceCtorEq, iff_false]
          exact toString_ne_nil given.code
      | some content => simp [errorText, message]

end Miningcore.DaemonInterface
