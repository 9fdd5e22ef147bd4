import Mathlib.Data.List.OfFn
import Mathlib.Logic.Equiv.Fin.Basic
import Miningcore.DaemonInterface.DaemonClient

/-! `DaemonClient` with several endpoints, and with batches.

`ExecuteCmdAnyAsync` and `ExecuteBatchAnyAsync` send a request to every endpoint and take
the task that completes first, whatever became of it. A batch is answered by an array, in
which an answer is told from the others by the id of its request. -/

namespace Miningcore.DaemonInterface

/-- A request task that is over. The message is that of the `AggregateException` around
the exception that the task ended in. -/
inductive RequestTask (α : Type)
  | faulted (inner : Exception) (message : Text)
  | canceled
  | completed (result : Option α)
deriving DecidableEq

def RequestTask.result {α : Type} : RequestTask α → Except Exception (Option α)
  | .faulted inner _ => .error inner
  | .canceled => .error (.exception "A task was canceled.")
  | .completed result => .ok result

/-- A `DaemonResponse` with its `Instance`, which is the endpoint with an index. -/
structure InstanceResponse (EndPoint α : Type) extends DaemonResponse α where
  endPoint : EndPoint

section Map

variable {EndPoint α : Type}

def mapDaemonResponse (endPoint : EndPoint) (throwOnError : Bool) :
    RequestTask (JsonRpcResponse α) → Except Exception (InstanceResponse EndPoint (Option α))
  | .faulted inner message =>
      if throwOnError then .error inner else .ok ⟨⟨some ⟨-500, some message⟩, none⟩, endPoint⟩
  | .canceled => .ok ⟨⟨some ⟨-500, some (text "Cancelled")⟩, none⟩, endPoint⟩
  | .completed result => do
      let response ← executeCmdSingle (.received result)
      return ⟨response, endPoint⟩

/-- `MapDaemonBatchResponse`. The branch for a task that ended in an exception reads its
result as well. -/
def mapDaemonBatchTask (endPoint : EndPoint)
    (task : RequestTask (List (Option (JsonRpcResponse α)))) :
    Except Exception (Option (List (InstanceResponse EndPoint (Option (Token α))))) :=
  match task with
  | .faulted _ message => do
      let result ← task.result
      return result.map fun elements => elements.map fun _ =>
        ⟨⟨some ⟨-500, some message⟩, none⟩, endPoint⟩
  | _ => do
      let result ← task.result
      let responses ← executeBatchAny (.received result)
      return responses.map fun elements => elements.map fun response => ⟨response, endPoint⟩

end Map

/-! ## Several endpoints -/

section Any

variable {count : Nat} {α : Type}

/-- `Task.WhenAny`: the tasks complete in some order. -/
def whenAny {Outcome : Type} (tasks : Fin (count + 1) → Outcome)
    (order : Equiv.Perm (Fin (count + 1))) : Outcome := tasks (order 0)

/-- `ExecuteCmdAnyAsync` with the tasks of the endpoints. -/
def executeCmdAnyOf (tasks : Fin (count + 1) → RequestTask (JsonRpcResponse α))
    (order : Equiv.Perm (Fin (count + 1))) (throwOnError : Bool) :
    Except Exception (InstanceResponse (Fin (count + 1)) (Option α)) :=
  mapDaemonResponse 0 throwOnError (whenAny tasks order)

/-- `ExecuteBatchAnyAsync` with the tasks of the endpoints. -/
def executeBatchAnyOf (tasks : Fin (count + 1) → RequestTask (List (Option (JsonRpcResponse α))))
    (order : Equiv.Perm (Fin (count + 1))) :
    Except Exception
      (Option (List (InstanceResponse (Fin (count + 1)) (Option (Token α))))) :=
  mapDaemonBatchTask 0 (whenAny tasks order)

/-- What a successful task responds: it has no error, and its result converts to the type
that is asked for. -/
def successOf : RequestTask (JsonRpcResponse α) → Option (Option α)
  | .completed result =>
      match executeCmdSingle (.received result) with
      | .ok ⟨none, response⟩ => some response
      | _ => none
  | _ => none

/-- What a successful task responds to a batch: as many results as commands, none of them
an error. -/
def batchSuccessOf (commands : Nat) :
    RequestTask (List (Option (JsonRpcResponse α))) → Option (List (Option (Token α)))
  | .completed result =>
      match executeBatchAny (.received result) with
      | .ok (some results) =>
          if results.length = commands ∧ results.all (fun response => response.error.isNone) then
            some (results.map DaemonResponse.response)
          else none
      | _ => none
  | _ => none

/-- If an endpoint succeeds, the result is the answer of an endpoint that does, attributed
to it. -/
def ReturnsSuccess {Outcome Answer Response : Type} (success : Outcome → Option Answer)
    (respond : Fin (count + 1) → Answer → Response) (tasks : Fin (count + 1) → Outcome)
    (result : Except Exception Response) : Prop :=
  (∃ index, (success (tasks index)).isSome) →
    ∃ index answer, success (tasks index) = some answer ∧ result = .ok (respond index answer)

/-- If an endpoint succeeds, then so do the first endpoint and the one that completes
first, with the same answer. -/
def FirstSucceeds {Outcome Answer : Type} (success : Outcome → Option Answer)
    (tasks : Fin (count + 1) → Outcome) (order : Equiv.Perm (Fin (count + 1))) : Prop :=
  (∃ index, (success (tasks index)).isSome) →
    ∃ answer, success (tasks 0) = some answer ∧ success (whenAny tasks order) = some answer

theorem returnsSuccess_iff {Outcome Answer Response : Type}
    {success : Outcome → Option Answer} {respond : Fin (count + 1) → Answer → Response}
    (map : Fin (count + 1) → Outcome → Except Exception Response)
    (maps : ∀ index outcome answer, success outcome = some answer →
      map index outcome = .ok (respond index answer))
    (attributes : ∀ index other outcome known answer, success known = some answer →
      map index outcome = .ok (respond other answer) →
      index = other ∧ success outcome = some answer)
    (tasks : Fin (count + 1) → Outcome) (order : Equiv.Perm (Fin (count + 1))) :
    ReturnsSuccess success respond tasks (map 0 (whenAny tasks order)) ↔
      FirstSucceeds success tasks order := by
  constructor
  · intro returns succeeds
    rcases returns succeeds with ⟨index, answer, isAnswer, isResult⟩
    rcases attributes 0 index _ _ answer isAnswer isResult with ⟨rfl, isFirst⟩
    exact ⟨answer, isAnswer, isFirst⟩
  · intro first succeeds
    rcases first succeeds with ⟨answer, isAnswer, isFirst⟩
    exact ⟨0, answer, isAnswer, maps 0 _ answer isFirst⟩

def instanceResponse {EndPoint : Type} (endPoint : EndPoint) (answer : α) :
    InstanceResponse EndPoint α := ⟨⟨none, answer⟩, endPoint⟩

theorem mapDaemonResponse_success {EndPoint : Type} (endPoint : EndPoint) (throwOnError : Bool)
    {task : RequestTask (JsonRpcResponse α)} {answer : Option α}
    (succeeds : successOf task = some answer) :
    mapDaemonResponse endPoint throwOnError task = .ok (instanceResponse endPoint answer) := by
  cases task with
  | faulted inner message => cases succeeds
  | canceled => cases succeeds
  | completed result =>
      rw [successOf] at succeeds
      split at succeeds
      · rename_i response mapped
        cases succeeds
        rw [mapDaemonResponse, mapped]
        rfl
      · cases succeeds

theorem success_of_mapDaemonResponse {EndPoint : Type} {endPoint other : EndPoint}
    {throwOnError : Bool} {task : RequestTask (JsonRpcResponse α)} {answer : Option α}
    (mapped : mapDaemonResponse endPoint throwOnError task = .ok (instanceResponse other answer)) :
    endPoint = other ∧ successOf task = some answer := by
  cases task with
  | faulted inner message =>
      rw [mapDaemonResponse] at mapped
      split_ifs at mapped
      cases mapped
  | canceled => cases mapped
  | completed result =>
      simp only [mapDaemonResponse, bind_eq_ok, pure_eq_ok] at mapped
      rcases mapped with ⟨response, isResponse, same⟩
      cases same
      refine ⟨rfl, ?_⟩
      rw [successOf, isResponse]

theorem batchSuccessOf_eq_some {commands : Nat}
    {task : RequestTask (List (Option (JsonRpcResponse α)))} {answers : List (Option (Token α))} :
    batchSuccessOf commands task = some answers ↔
      answers.length = commands ∧ ∃ result, task = .completed result ∧
        executeBatchAny (.received result) =
          .ok (some (answers.map fun answer => ⟨none, answer⟩)) := by
  cases task with
  | faulted inner message => simp [batchSuccessOf]
  | canceled => simp [batchSuccessOf]
  | completed result =>
      simp only [batchSuccessOf, RequestTask.completed.injEq, exists_eq_left']
      split
      · rename_i results mapped
        rw [mapped, Except.ok.injEq, Option.some.injEq]
        constructor
        · intro succeeds
          split_ifs at succeeds with isSuccess
          cases succeeds
          refine ⟨(List.length_map _).trans isSuccess.1, ?_⟩
          have same : ∀ response ∈ results,
              ((fun answer => (⟨none, answer⟩ : DaemonResponse (Option (Token α)))) ∘
                DaemonResponse.response) response = id response := by
            rintro ⟨error, response⟩ member
            have noError := List.all_eq_true.mp isSuccess.2 _ member
            cases error with
            | none => rfl
            | some error => cases noError
          rw [List.map_map, List.map_congr_left same, List.map_id]
        · rintro ⟨isLength, rfl⟩
          rw [List.map_map, if_pos]
          · exact congrArg some (List.map_id answers)
          · refine ⟨(List.length_map _).trans isLength, ?_⟩
            simp
      · rename_i other
        constructor
        · intro none
          cases none
        · rintro ⟨-, mapped⟩
          exact absurd mapped (other _)

theorem mapDaemonBatchTask_success {EndPoint : Type} (endPoint : EndPoint) {commands : Nat}
    {task : RequestTask (List (Option (JsonRpcResponse α)))} {answers : List (Option (Token α))}
    (succeeds : batchSuccessOf commands task = some answers) :
    mapDaemonBatchTask endPoint task =
      .ok (some (answers.map (instanceResponse endPoint))) := by
  rcases batchSuccessOf_eq_some.mp succeeds with ⟨-, result, rfl, mapped⟩
  simp only [mapDaemonBatchTask, RequestTask.result]
  show (do let responses ← executeBatchAny (.received result); _) = _
  rw [mapped]
  show Except.ok (some (List.map _ (List.map _ answers))) = _
  rw [List.map_map]
  rfl

theorem success_of_mapDaemonBatchTask {EndPoint : Type} {endPoint other : EndPoint} {more : Nat}
    {task : RequestTask (List (Option (JsonRpcResponse α)))} {answers : List (Option (Token α))}
    (isLength : answers.length = more + 1)
    (mapped : mapDaemonBatchTask endPoint task =
      .ok (some (answers.map (instanceResponse other)))) :
    endPoint = other ∧ batchSuccessOf (more + 1) task = some answers := by
  cases task with
  | faulted inner message => cases mapped
  | canceled => cases mapped
  | completed result =>
      simp only [mapDaemonBatchTask, RequestTask.result, bind_eq_ok, pure_eq_ok] at mapped
      rcases mapped with ⟨read, isRead, responses, isResponses, same⟩
      cases isRead
      rw [Option.map_eq_some_iff] at same
      rcases same with ⟨elements, rfl, same⟩
      have bodies : elements = answers.map fun answer => ⟨none, answer⟩ := by
        have dropped := congrArg (List.map InstanceResponse.toDaemonResponse) same
        rw [List.map_map, List.map_map] at dropped
        exact (List.map_id elements).symm.trans dropped
      have instances := congrArg (List.map InstanceResponse.endPoint) same
      rw [List.map_map, List.map_map] at instances
      cases answers with
      | nil => cases isLength
      | cons answer answers =>
          rw [bodies] at instances isResponses
          refine ⟨(List.cons.inj instances).1, ?_⟩
          exact batchSuccessOf_eq_some.mpr ⟨isLength, result, rfl, isResponses⟩

/-- For any number of endpoints, all outcomes and every order of completion: both methods
return the answer of a successful endpoint, attributed to it, exactly if the first
endpoint and the one that completes first succeed with the same answer. -/
theorem anyReturnsSuccess_iff (order : Equiv.Perm (Fin (count + 1))) :
    (∀ (tasks : Fin (count + 1) → RequestTask (JsonRpcResponse α)) (throwOnError : Bool),
      ReturnsSuccess successOf instanceResponse tasks (executeCmdAnyOf tasks order throwOnError) ↔
        FirstSucceeds successOf tasks order) ∧
    ∀ (tasks : Fin (count + 1) → RequestTask (List (Option (JsonRpcResponse α)))) (more : Nat),
      ReturnsSuccess (batchSuccessOf (more + 1))
          (fun index answers => some (answers.map (instanceResponse index))) tasks
          (executeBatchAnyOf tasks order) ↔
        FirstSucceeds (batchSuccessOf (more + 1)) tasks order := by
  constructor
  · intro tasks throwOnError
    apply returnsSuccess_iff fun index => mapDaemonResponse index throwOnError
    · intro index task answer succeeds
      exact mapDaemonResponse_success index throwOnError succeeds
    · intro index other task known answer isKnown mapped
      exact success_of_mapDaemonResponse mapped
  · intro tasks more
    apply returnsSuccess_iff mapDaemonBatchTask
    · intro index task answers succeeds
      exact mapDaemonBatchTask_success index succeeds
    · intro index other task known answers isKnown mapped
      exact success_of_mapDaemonBatchTask (batchSuccessOf_eq_some.mp isKnown).1 mapped

/-- Of two endpoints the second completes first, and fails, while the first one is about
to answer. -/
theorem anyReturnsSuccess_fails :
    let answer : RequestTask (JsonRpcResponse Unit) :=
      .completed (some ⟨some (.ok (some ())), none⟩)
    let batchAnswer : RequestTask (List (Option (JsonRpcResponse Unit))) :=
      .completed (some [some ⟨some (.ok (some ())), none⟩])
    ¬ ReturnsSuccess successOf instanceResponse ![answer, .canceled]
        (executeCmdAnyOf ![answer, .canceled] (Equiv.swap 0 1) false) ∧
      ¬ ReturnsSuccess (batchSuccessOf 1)
        (fun index answers => some (answers.map (instanceResponse index)))
        ![batchAnswer, .canceled]
        (executeBatchAnyOf ![batchAnswer, .canceled] (Equiv.swap 0 1)) := by
  intro answer batchAnswer
  constructor
  · intro returns
    rcases returns ⟨0, rfl⟩ with ⟨index, response, -, isResult⟩
    cases isResult
  · intro returns
    rcases returns ⟨0, rfl⟩ with ⟨index, response, -, isResult⟩
    cases isResult

end Any

/-! ## Batches -/

section Batch

variable {count commands : Nat} {Payload α : Type}

structure DaemonCmd (Payload : Type) where
  method : Text
  payload : Payload

structure JsonRpcRequest (Params : Type) where
  method : Text
  params : Params
  id : Text

/-- `GetRequestId`, with the clock's seconds and what `StaticRandom.Next(10)` draws. -/
def getRequestId (unixTimeSeconds : Nat) (next : Fin 10) : Text :=
  text (toString (unixTimeSeconds + next))

/-- The requests of `BuildBatchRequestTask`, each with a time and a draw of its own. -/
def rpcRequests (batch : Fin commands → DaemonCmd Payload) (drawn : Fin commands → Nat × Fin 10)
    (index : Fin commands) : JsonRpcRequest Payload :=
  { method := (batch index).method, params := (batch index).payload,
    id := getRequestId (drawn index).1 (drawn index).2 }

structure BatchElement (α : Type) extends JsonRpcResponse α where
  id : Text

/-- What becomes of a batch: the request fails or is canceled, or the daemon answers every
command and returns the answers in some order. -/
inductive BatchOutcome (commands : Nat) (α : Type)
  | failed (inner : Exception) (message : Text)
  | canceled
  | replied (answers : Fin commands → JsonRpcResponse α) (order : Equiv.Perm (Fin commands))

def replyArray (requests : Fin commands → JsonRpcRequest Payload)
    (answers : Fin commands → JsonRpcResponse α) (order : Equiv.Perm (Fin commands)) :
    List (BatchElement α) :=
  List.ofFn fun position => ⟨answers (order position), (requests (order position)).id⟩

def buildBatchRequestTask (requests : Fin commands → JsonRpcRequest Payload) :
    BatchOutcome commands α → RequestTask (List (Option (JsonRpcResponse α)))
  | .failed inner message => .faulted inner message
  | .canceled => .canceled
  | .replied answers order =>
      .completed (some ((replyArray requests answers order).map fun element =>
        some element.toJsonRpcResponse))

def JsonRpcResponse.toDaemonResponse (answer : JsonRpcResponse α) :
    DaemonResponse (Option (Token α)) := ⟨answer.error, answer.result⟩

theorem JsonRpcResponse.toDaemonResponse_injective :
    Function.Injective (JsonRpcResponse.toDaemonResponse (α := α)) := by
  intro answer other same
  cases answer
  cases other
  cases same
  rfl

/-- The result has an element for every command, and each answers the command at its
place. A request that fails or is canceled gives as many elements with an error. -/
def AnswersBatch {EndPoint : Type} (outcome : BatchOutcome commands α)
    (result : Except Exception (Option (List (InstanceResponse EndPoint (Option (Token α)))))) :
    Prop :=
  ∃ responses, result = .ok (some responses) ∧ responses.length = commands ∧
    match outcome with
    | .replied answers _ =>
        responses.map InstanceResponse.toDaemonResponse =
          List.ofFn fun index => (answers index).toDaemonResponse
    | _ => ∀ response ∈ responses, response.error.isSome

/-- The daemon has replied, and every answer stands where its command does. -/
def RepliesInOrder (outcome : BatchOutcome commands α) : Prop :=
  ∃ answers order, outcome = .replied answers order ∧
    ∀ position, answers (order position) = answers position

theorem mapDaemonBatchTask_replied {EndPoint : Type} (endPoint : EndPoint)
    (requests : Fin commands → JsonRpcRequest Payload)
    (answers : Fin commands → JsonRpcResponse α) (order : Equiv.Perm (Fin commands)) :
    mapDaemonBatchTask endPoint (buildBatchRequestTask requests (.replied answers order)) =
      .ok (some (List.ofFn fun position =>
        ⟨(answers (order position)).toDaemonResponse, endPoint⟩)) := by
  have mapped : executeBatchAny (.received (some ((replyArray requests answers order).map
      fun element => some element.toJsonRpcResponse))) =
      .ok (some ((replyArray requests answers order).map fun element =>
        element.toJsonRpcResponse.toDaemonResponse)) := by
    rw [executeBatchAny_ok]
    right
    refine ⟨(replyArray requests answers order).map BatchElement.toJsonRpcResponse, ?_, ?_⟩
    · rw [List.map_map]
      rfl
    · rw [List.map_map]
      rfl
  simp only [buildBatchRequestTask, mapDaemonBatchTask, RequestTask.result]
  show (do let responses ← executeBatchAny (.received (some _)); _) = _
  rw [mapped]
  show Except.ok (some (List.map _ (List.map _ (List.ofFn _)))) = _
  rw [List.map_map, List.map_ofFn]
  rfl

/-- For any number of endpoints and commands, whatever becomes of the requests and in
whatever order they complete: a batch is answered in the order of its commands exactly if
the daemon that completes first has replied, with its answers in that order. -/
theorem executeBatchAny_answersBatch_iff (batch : Fin commands → DaemonCmd Payload)
    (drawn : Fin (count + 1) → Fin commands → Nat × Fin 10)
    (outcomes : Fin (count + 1) → BatchOutcome commands α)
    (completion : Equiv.Perm (Fin (count + 1))) :
    AnswersBatch (whenAny outcomes completion)
        (executeBatchAnyOf (fun endPoint =>
          buildBatchRequestTask (rpcRequests batch (drawn endPoint)) (outcomes endPoint))
          completion) ↔
      RepliesInOrder (whenAny outcomes completion) := by
  rw [executeBatchAnyOf]
  show AnswersBatch (outcomes (completion 0)) (mapDaemonBatchTask 0 (buildBatchRequestTask
    (rpcRequests batch (drawn (completion 0))) (outcomes (completion 0)))) ↔ _
  rw [whenAny]
  cases outcomes (completion 0) with
  | failed inner message =>
      constructor
      · intro answered
        rcases answered with ⟨responses, isResult, -⟩
        cases isResult
      · intro inOrder
        rcases inOrder with ⟨answers, order, isReplied, -⟩
        cases isReplied
  | canceled =>
      constructor
      · intro answered
        rcases answered with ⟨responses, isResult, -⟩
        cases isResult
      · intro inOrder
        rcases inOrder with ⟨answers, order, isReplied, -⟩
        cases isReplied
  | replied answers order =>
      rw [mapDaemonBatchTask_replied]
      constructor
      · intro answered
        rcases answered with ⟨responses, isResult, -, isAnswer⟩
        cases isResult
        refine ⟨answers, order, rfl, ?_⟩
        intro position
        rw [List.map_ofFn] at isAnswer
        have atPosition := congrFun (List.ofFn_injective isAnswer) position
        exact JsonRpcResponse.toDaemonResponse_injective atPosition
      · intro inOrder
        rcases inOrder with ⟨_, _, isReplied, inOrder⟩
        cases isReplied
        refine ⟨_, rfl, List.length_ofFn, ?_⟩
        rw [List.map_ofFn]
        apply congrArg List.ofFn
        funext position
        exact congrArg JsonRpcResponse.toDaemonResponse (inOrder position)

/-- A daemon returns the answers to two commands in the other order, with the ids of their
requests; and a request for them fails. -/
theorem executeBatchAny_answersBatch_fails :
    let batch : Fin 2 → DaemonCmd Unit := ![⟨text "getinfo", ()⟩, ⟨text "getmininginfo", ()⟩]
    let drawn : Fin 1 → Fin 2 → Nat × Fin 10 := fun _ => ![(1500000000, 0), (1500000000, 1)]
    let answers : Fin 2 → JsonRpcResponse Nat := ![⟨some (.ok (some 1)), none⟩,
      ⟨some (.ok (some 2)), none⟩]
    let result (outcome : BatchOutcome 2 Nat) := executeBatchAnyOf (fun endPoint : Fin 1 =>
      buildBatchRequestTask (rpcRequests batch (drawn endPoint)) outcome) (Equiv.refl _)
    let swapped : BatchOutcome 2 Nat := .replied answers (Equiv.swap 0 1)
    let failed : BatchOutcome 2 Nat :=
      .failed (.exception "Connection refused") (text "One or more errors occurred.")
    (rpcRequests batch (drawn 0) 0).id ≠ (rpcRequests batch (drawn 0) 1).id ∧
      ¬ AnswersBatch swapped (result swapped) ∧ ¬ AnswersBatch failed (result failed) := by
  intro batch drawn answers result swapped failed
  refine ⟨by decide, ?_, ?_⟩
  · intro answered
    rcases answered with ⟨responses, isResult, -, isAnswer⟩
    cases isResult
    have isFirst := (List.cons.inj isAnswer).1
    cases isFirst
  · intro answered
    rcases answered with ⟨responses, isResult, -⟩
    cases isResult

end Batch

end Miningcore.DaemonInterface
