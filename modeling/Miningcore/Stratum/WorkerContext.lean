import Miningcore.Stratum.ShareAcceptance
import Miningcore.VarDiff.VarDiffManager

/-! `WorkerContextBase` and the state that the pools of the Bitcoin family add to it:
what a connection remembers between its requests. -/

namespace Miningcore.Stratum

open Miningcore.Configuration Miningcore.VarDiff

/-- The context of a connection. The statistics, which only the banning reads, and
the times of activity are left out. The last two fields are history: the
difficulties the connection was assigned, the newest first, and the addresses that
the daemon reported valid in its authorize requests. -/
structure WorkerContext where
  difficulty : ℚ
  previousDifficulty : Option ℚ := none
  pendingDifficulty : Option ℚ := none
  varDiff : Option VarDiffContext := none
  isAuthorized : Bool := false
  isSubscribed : Bool := false
  minerName : Option Text := none
  workerName : Option Text := none
  extraNonce1 : Option Text := none
  assigned : List ℚ
  validated : List Text := []

namespace WorkerContext

def init (endpoint : PoolEndpoint) : WorkerContext where
  difficulty := endpoint.difficulty
  varDiff := endpoint.varDiff.map fun config => { config }
  assigned := [endpoint.difficulty]

def enqueueNewDifficulty (context : WorkerContext) (difficulty : ℚ) : WorkerContext :=
  { context with pendingDifficulty := some difficulty }

def setDifficulty (context : WorkerContext) (difficulty : ℚ) : WorkerContext :=
  { context with
    previousDifficulty := some context.difficulty
    difficulty
    assigned := difficulty :: context.assigned }

def applyPendingDifficulty (context : WorkerContext) : WorkerContext :=
  match context.pendingDifficulty with
  | none => context
  | some difficulty => { context.setDifficulty difficulty with pendingDifficulty := none }

def forShares (context : WorkerContext) : BitcoinWorkerContext where
  extraNonce1 := context.extraNonce1.getD []
  difficulty := {
    difficulty := context.difficulty
    previousDifficulty := context.previousDifficulty
    retargeted := context.varDiff.any fun varDiff => varDiff.lastUpdate.isSome }

def Assigned (context : WorkerContext) : Prop :=
  context.assigned.take 2 = context.difficulty :: context.previousDifficulty.toList

theorem init_assigned (endpoint : PoolEndpoint) : (init endpoint).Assigned := rfl

theorem setDifficulty_assigned {context : WorkerContext} (difficulty : ℚ)
    (holds : context.Assigned) : (context.setDifficulty difficulty).Assigned := by
  rw [Assigned] at holds
  cases history : context.assigned with
  | nil =>
      rw [history] at holds
      cases holds
  | cons newest older =>
      rw [history, List.take_succ_cons] at holds
      rw [Assigned, setDifficulty, history, (List.cons.inj holds).1]
      rfl

theorem applyPendingDifficulty_assigned {context : WorkerContext} (holds : context.Assigned) :
    context.applyPendingDifficulty.Assigned := by
  rw [applyPendingDifficulty]
  split
  · exact holds
  · exact setDifficulty_assigned _ holds

/-- An authorized connection has the name of a miner that the daemon reported valid. -/
def Authenticated (context : WorkerContext) : Prop :=
  context.isAuthorized = true → ∃ address ∈ context.validated, context.minerName = some address

end WorkerContext

/-! ## The difficulty in a password -/

/-- The code units of category decimal digit, which `\d` matches, by the zeros of
their alphabets. -/
def decimalZeros : List Nat :=
  [0x0030, 0x0660, 0x06f0, 0x07c0, 0x0966, 0x09e6, 0x0a66, 0x0ae6, 0x0b66, 0x0be6, 0x0c66, 0x0ce6,
    0x0d66, 0x0de6, 0x0e50, 0x0ed0, 0x0f20, 0x1040, 0x1090, 0x17e0, 0x1810, 0x1946, 0x19d0,
    0x1a80, 0x1a90, 0x1b50, 0x1bb0, 0x1c40, 0x1c50, 0xa620, 0xa8d0, 0xa900, 0xa9d0, 0xa9f0, 0xaa50,
    0xabf0, 0xff10]

def isDigit (unit : CodeUnit) : Bool :=
  decimalZeros.any fun first => first ≤ unit.toNat && unit.toNat < first + 10

/-- What follows the first `d=` of a text. -/
def afterMarker : Text → Option Text
  | [] => none
  | unit :: rest =>
      if unit = 100 ∧ rest.head? = some 61 then some rest.tail else afterMarker rest

/-- The digits before and after the point in the first group of
`d=(\d*(\.\d+)?)`. -/
def matchStaticDiff (part : Text) : Option (Text × Text) :=
  (afterMarker part).map fun rest =>
    let whole := rest.takeWhile isDigit
    match rest.dropWhile isDigit with
    | 46 :: fraction => (whole, fraction.takeWhile isDigit)
    | _ => (whole, [])

def decimalValue (digits : Text) : Nat :=
  digits.foldl (fun value digit => value * 10 + (digit.toNat - 48)) 0

/-- `double.TryParse` of a number without sign and exponent. It accepts no digits
but the ASCII ones and no number out of range. -/
def tryParseDouble (whole fraction : Text) : Option ℚ :=
  let value : ℚ := decimalValue whole + decimalValue fraction / 10 ^ fraction.length
  if whole ++ fraction = [] ∨ ¬(whole ++ fraction).all CodeUnit.isDecimalDigit ∨
      2 ^ 1024 - 2 ^ 970 ≤ value then none
  else some value

def getStaticDiffFromPassparts (parts : List Text) : Option ℚ :=
  parts.findSome? fun part => (matchStaticDiff part).bind fun (whole, fraction) =>
    tryParseDouble whole fraction

example : getStaticDiffFromPassparts [text "x", text "d=", text "diff,d=12.5m"] =
    some (25 / 2) := by
  decide +kernel

end Miningcore.Stratum
