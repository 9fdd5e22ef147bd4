import Miningcore.Stratum.Connection

/-! The difficulty of a worker has a floor.

The handlers of a connection write the three difficulties of its context under different
guards: one compares with the port, one with the minimum of the variable difficulty, one
with the difficulty that the worker has. -/

namespace Miningcore.Stratum

open Miningcore.Configuration Miningcore.VarDiff

/-- The difficulty of the port, or the minimum of its variable difficulty if that is
lower. -/
def floor (endpoint : PoolEndpoint) : ℚ :=
  match endpoint.varDiff with
  | none => endpoint.difficulty
  | some config => min endpoint.difficulty config.minDiff

theorem floor_le_difficulty (endpoint : PoolEndpoint) : floor endpoint ≤ endpoint.difficulty := by
  rw [floor]
  split
  · exact le_rfl
  · exact min_le_left _ _

theorem floor_le_minDiff {endpoint : PoolEndpoint} {config : VarDiffConfig}
    (configured : endpoint.varDiff = some config) : floor endpoint ≤ config.minDiff := by
  rw [floor, configured]
  exact min_le_right _ _

theorem floor_pos {endpoint : PoolEndpoint} (validates : endpoint.validates = true)
    (positive : ∀ config ∈ endpoint.varDiff, 0 < config.minDiff) : 0 < floor endpoint := by
  rw [PoolEndpoint.validates, Bool.and_eq_true] at validates
  have portPositive := of_decide_eq_true validates.1
  rw [floor]
  split
  · exact portPositive
  · rename_i config configured
    exact lt_min portPositive (positive config configured)

namespace WorkerContext

/-- The difficulties in a context: the current one, and the previous and the pending one
where they are set. -/
def difficulties (context : WorkerContext) : List ℚ :=
  context.difficulty :: (context.previousDifficulty.toList ++ context.pendingDifficulty.toList)

/-- No difficulty is below the floor, and a variable difficulty has the configuration of
the port. -/
structure AboveFloor (endpoint : PoolEndpoint) (context : WorkerContext) : Prop where
  difficulty : floor endpoint ≤ context.difficulty
  previous : ∀ previous ∈ context.previousDifficulty, floor endpoint ≤ previous
  pending : ∀ pending ∈ context.pendingDifficulty, floor endpoint ≤ pending
  configured : ∀ varDiff ∈ context.varDiff, endpoint.varDiff = some varDiff.config

variable {endpoint : PoolEndpoint} {context : WorkerContext}

theorem AboveFloor.floor_le (above : context.AboveFloor endpoint) :
    ∀ difficulty ∈ context.difficulties, floor endpoint ≤ difficulty := by
  intro difficulty member
  rw [difficulties, List.mem_cons, List.mem_append, Option.mem_toList, Option.mem_toList] at member
  rcases member with rfl | isPrevious | isPending
  · exact above.difficulty
  · exact above.previous difficulty isPrevious
  · exact above.pending difficulty isPending

theorem init_aboveFloor (endpoint : PoolEndpoint) : (init endpoint).AboveFloor endpoint where
  difficulty := floor_le_difficulty endpoint
  previous := by
    intro previous impossible
    cases impossible
  pending := by
    intro pending impossible
    cases impossible
  configured := by
    intro varDiff member
    rw [init, Option.mem_def, Option.map_eq_some_iff] at member
    rcases member with ⟨config, configured, rfl⟩
    exact configured

theorem setDifficulty_aboveFloor {difficulty : ℚ} (enough : floor endpoint ≤ difficulty)
    (above : context.AboveFloor endpoint) :
    (context.setDifficulty difficulty).AboveFloor endpoint where
  difficulty := enough
  previous := by
    intro previous isPrevious
    cases isPrevious
    exact above.difficulty
  pending := above.pending
  configured := above.configured

theorem enqueueNewDifficulty_aboveFloor {difficulty : ℚ} (enough : floor endpoint ≤ difficulty)
    (above : context.AboveFloor endpoint) :
    (context.enqueueNewDifficulty difficulty).AboveFloor endpoint where
  difficulty := above.difficulty
  previous := above.previous
  pending := by
    intro pending isPending
    cases isPending
    exact enough
  configured := above.configured

theorem applyPendingDifficulty_aboveFloor (above : context.AboveFloor endpoint) :
    context.applyPendingDifficulty.AboveFloor endpoint := by
  rw [applyPendingDifficulty]
  split
  · exact above
  · rename_i difficulty isPending
    have applied := setDifficulty_aboveFloor (above.pending difficulty isPending) above
    refine ⟨applied.difficulty, applied.previous, ?_, applied.configured⟩
    intro pending impossible
    cases impossible

theorem applyStaticDiff_aboveFloor (staticDiff : ℚ) (above : context.AboveFloor endpoint) :
    (applyStaticDiff context staticDiff).AboveFloor endpoint := by
  have enough : ∀ guard : ℚ, floor endpoint ≤ guard → guard ≤ staticDiff →
      ({ context with varDiff := none }.setDifficulty staticDiff).AboveFloor endpoint := by
    intro guard aboveGuard admitted
    apply setDifficulty_aboveFloor (aboveGuard.trans admitted)
    refine ⟨above.difficulty, above.previous, above.pending, ?_⟩
    intro varDiff impossible
    cases impossible
  simp only [applyStaticDiff]
  split_ifs with admitted
  · cases hasVarDiff : context.varDiff with
    | none =>
        simp only [hasVarDiff, decide_eq_true_eq] at admitted
        exact enough _ above.difficulty admitted.le
    | some varDiff =>
        simp only [hasVarDiff, decide_eq_true_eq] at admitted
        exact enough _ (floor_le_minDiff (above.configured varDiff hasVarDiff)) admitted
  · exact above

theorem onAuthorize_aboveFloor (request : Authorize) (above : context.AboveFloor endpoint) :
    (onAuthorize context request).AboveFloor endpoint := by
  rw [onAuthorize]
  split_ifs
  · split
    · exact above
    · simp only
      split
      · apply applyStaticDiff_aboveFloor
        exact ⟨above.difficulty, above.previous, above.pending, above.configured⟩
      · exact ⟨above.difficulty, above.previous, above.pending, above.configured⟩
  · exact above

theorem onSuggestDifficulty_aboveFloor (requestedDiff : Option ℚ)
    (above : context.AboveFloor endpoint) :
    (onSuggestDifficulty endpoint context requestedDiff).AboveFloor endpoint := by
  cases requestedDiff with
  | none => exact above
  | some requested =>
      rw [onSuggestDifficulty]
      split_ifs with admitted
      · exact setDifficulty_aboveFloor ((floor_le_difficulty endpoint).trans admitted.le) above
      · exact above

theorem updateVarDiff_aboveFloor (validates : endpoint.validates = true) (ts : ℚ) (now : Int)
    (isIdleUpdate : Bool) (above : context.AboveFloor endpoint) :
    (updateVarDiff context ts now isIdleUpdate).AboveFloor endpoint := by
  cases hasVarDiff : context.varDiff with
  | none =>
      simp only [updateVarDiff, hasVarDiff]
      exact above
  | some varDiff =>
      have configured := above.configured varDiff hasVarDiff
      have configValidates : varDiff.config.validates = true := by
        rw [PoolEndpoint.validates, configured, Bool.and_eq_true] at validates
        exact validates.2
      have updated := @update_spec (.exact varDiff.config) configValidates varDiff ts now
        context.difficulty isIdleUpdate
      have kept : WorkerContext.AboveFloor endpoint { context with
          varDiff := some
            (update (.exact varDiff.config) varDiff ts now context.difficulty isIdleUpdate).1 } := by
        refine ⟨above.difficulty, above.previous, above.pending, ?_⟩
        intro other isOther
        cases isOther
        rw [updated.1]
        exact configured
      simp only [updateVarDiff, hasVarDiff]
      split
      · exact kept
      · rename_i newDiff isNew
        have enough := (floor_le_minDiff configured).trans (updated.2 newDiff isNew)
        apply applyPendingDifficulty_aboveFloor
        exact enqueueNewDifficulty_aboveFloor enough kept

end WorkerContext

variable {Manager Update Replies : Type} (pool : Pool Manager Update Replies)

theorem step_aboveFloor (validates : pool.endpoint.validates = true)
    (connection : Connection Manager) (event : Event Update Replies)
    (above : connection.context.AboveFloor pool.endpoint) :
    (step pool connection event).context.AboveFloor pool.endpoint := by
  cases event with
  | update update => exact above
  | subscribe hasId extraNonce1 =>
      simp only [step, onSubscribe]
      split_ifs
      · exact ⟨above.difficulty, above.previous, above.pending, above.configured⟩
      · exact above
  | authorize request => exact WorkerContext.onAuthorize_aboveFloor request above
  | suggestDifficulty requestedDiff =>
      exact WorkerContext.onSuggestDifficulty_aboveFloor requestedDiff above
  | newJob isIdle =>
      simp only [step, onNewJob]
      split_ifs
      · exact WorkerContext.applyPendingDifficulty_aboveFloor above
      · exact above
  | idleUpdate ts now =>
      exact WorkerContext.updateVarDiff_aboveFloor validates ts now true above
  | submit request =>
      rw [step, onSubmit]
      split_ifs
      · split
        · exact above
        · exact WorkerContext.updateVarDiff_aboveFloor validates request.ts request.now false above
      · exact above

theorem final_difficulties (validates : pool.endpoint.validates = true) (manager : Manager)
    (events : List (Event Update Replies)) :
    ∀ difficulty ∈ (Run.final (step pool) (connect pool manager) events).context.difficulties,
      floor pool.endpoint ≤ difficulty ∧
        ((∀ config ∈ pool.endpoint.varDiff, 0 < config.minDiff) → 0 < difficulty) := by
  have above := Run.final_invariant (step pool)
    (fun connection => connection.context.AboveFloor pool.endpoint)
    (step_aboveFloor pool validates) (connect pool manager)
    (WorkerContext.init_aboveFloor pool.endpoint) events
  intro difficulty member
  have enough := above.floor_le difficulty member
  refine ⟨enough, ?_⟩
  intro positive
  exact (floor_pos validates positive).trans_le enough

end Miningcore.Stratum
