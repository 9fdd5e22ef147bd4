import Mathlib.Data.List.Basic

/-! # Frames of a stream

A separator ends each frame of a stream. What follows the last separator is a frame that
is not finished. -/

namespace Miningcore.Framing

variable {α : Type} [DecidableEq α] (separator : α)

def framesFrom (begun : List α) : List α → List (List α)
  | [] => []
  | element :: stream =>
      if element = separator then begun :: framesFrom [] stream
      else framesFrom (begun ++ [element]) stream

def unfinishedFrom (begun : List α) : List α → List α
  | [] => begun
  | element :: stream =>
      if element = separator then unfinishedFrom [] stream
      else unfinishedFrom (begun ++ [element]) stream

def frames (stream : List α) : List (List α) := framesFrom separator [] stream

def unfinished (stream : List α) : List α := unfinishedFrom separator [] stream

variable {separator}

theorem framesFrom_append (begun front back : List α) :
    framesFrom separator begun (front ++ back) =
      framesFrom separator begun front ++
        framesFrom separator (unfinishedFrom separator begun front) back := by
  induction front generalizing begun with
  | nil => rfl
  | cons element front induction =>
      simp only [List.cons_append, framesFrom, unfinishedFrom]
      split_ifs
      · rw [induction, List.cons_append]
      · exact induction _

theorem unfinishedFrom_append (begun front back : List α) :
    unfinishedFrom separator begun (front ++ back) =
      unfinishedFrom separator (unfinishedFrom separator begun front) back := by
  induction front generalizing begun with
  | nil => rfl
  | cons element front induction =>
      simp only [List.cons_append, unfinishedFrom]
      split_ifs
      · exact induction _
      · exact induction _

theorem from_of_not_mem {stream : List α} (absent : separator ∉ stream) (begun : List α) :
    framesFrom separator begun stream = [] ∧
      unfinishedFrom separator begun stream = begun ++ stream := by
  induction stream generalizing begun with
  | nil => exact ⟨rfl, (List.append_nil begun).symm⟩
  | cons element stream induction =>
      rw [List.mem_cons, not_or] at absent
      rw [framesFrom, unfinishedFrom, if_neg (Ne.symm absent.1), if_neg (Ne.symm absent.1)]
      have rest := induction absent.2 (begun ++ [element])
      rw [List.append_assoc, List.singleton_append] at rest
      exact rest

theorem unfinishedFrom_not_mem {begun : List α} (absent : separator ∉ begun) (stream : List α) :
    separator ∉ unfinishedFrom separator begun stream := by
  induction stream generalizing begun with
  | nil => exact absent
  | cons element stream induction =>
      rw [unfinishedFrom]
      split_ifs with isSeparator
      · exact induction List.not_mem_nil
      · apply induction
        rw [List.mem_append, List.mem_singleton, not_or]
        exact ⟨absent, fun same => isSeparator same.symm⟩

theorem unfinished_not_mem (stream : List α) : separator ∉ unfinished separator stream :=
  unfinishedFrom_not_mem List.not_mem_nil stream

theorem framesFrom_of_not_mem {begun : List α} (absent : separator ∉ begun) (stream : List α) :
    framesFrom separator begun stream = frames separator (begun ++ stream) := by
  have alone := from_of_not_mem absent []
  rw [frames, framesFrom_append, alone.1, alone.2]
  rfl

theorem frames_append (front back : List α) :
    frames separator (front ++ back) =
      frames separator front ++ frames separator (unfinished separator front ++ back) := by
  rw [← framesFrom_of_not_mem (unfinished_not_mem front)]
  exact framesFrom_append [] front back

theorem unfinished_append (front back : List α) :
    unfinished separator (front ++ back) =
      unfinished separator (unfinished separator front ++ back) := by
  have absent : separator ∉ unfinished separator front := unfinished_not_mem front
  have alone := from_of_not_mem absent []
  rw [unfinished, unfinishedFrom_append, unfinished, unfinishedFrom_append, alone.2]
  rfl

theorem frames_cons {first : List α} (absent : separator ∉ first) (stream : List α) :
    frames separator (first ++ separator :: stream) = first :: frames separator stream := by
  have alone := from_of_not_mem absent []
  rw [frames, framesFrom_append, alone.1, alone.2, framesFrom, if_pos rfl]
  rfl

theorem unfinished_cons {first : List α} (absent : separator ∉ first) (stream : List α) :
    unfinished separator (first ++ separator :: stream) = unfinished separator stream := by
  have alone := from_of_not_mem absent []
  rw [unfinished, unfinishedFrom_append, alone.2, unfinishedFrom, if_pos rfl]
  rfl

theorem unfinished_flatten {reads : List (List α)}
    (finished : ∀ read ∈ reads, ∃ frame, separator ∉ frame ∧ read = frame ++ [separator]) :
    unfinished separator reads.flatten = [] := by
  induction reads with
  | nil => rfl
  | cons read reads induction =>
      rcases finished read List.mem_cons_self with ⟨frame, absent, rfl⟩
      rw [List.flatten_cons, List.append_assoc, List.singleton_append, unfinished_cons absent]
      apply induction
      intro later member
      exact finished later (List.mem_cons_of_mem _ member)

theorem eq_of_idxOf? {stream : List α} {position : Nat}
    (found : stream.idxOf? separator = some position) :
    position < stream.length ∧ separator ∉ stream.take position ∧
      stream = stream.take position ++ separator :: stream.drop (position + 1) := by
  rw [List.idxOf?_eq_some_iff] at found
  rcases found with ⟨inside, isSeparator, noneBefore⟩
  refine ⟨inside, ?_, ?_⟩
  · intro member
    rcases List.mem_take_iff_getElem.mp member with ⟨index, inBoth, isElement⟩
    exact noneBefore index (by omega) isElement
  · rw [← isSeparator, ← List.drop_eq_getElem_cons inside, List.take_append_drop]

theorem frames_of_idxOf? {stream : List α} {position : Nat}
    (found : stream.idxOf? separator = some position) :
    frames separator stream =
        stream.take position :: frames separator (stream.drop (position + 1)) ∧
      unfinished separator stream = unfinished separator (stream.drop (position + 1)) := by
  rcases eq_of_idxOf? found with ⟨-, absent, isStream⟩
  constructor
  · conv_lhs => rw [isStream]
    exact frames_cons absent _
  · conv_lhs => rw [isStream]
    exact unfinished_cons absent _

theorem forall_reads_cons {β : Type} (first : β) (reads : List β) (property : List β → β → Prop) :
    (∀ front arrived, front ++ [arrived] <+: first :: reads → property front arrived) ↔
      property [] first ∧
        ∀ front arrived, front ++ [arrived] <+: reads → property (first :: front) arrived := by
  constructor
  · intro all
    refine ⟨all [] first ⟨reads, rfl⟩, ?_⟩
    intro front arrived isPrefix
    exact all (first :: front) arrived (List.cons_prefix_cons.mpr ⟨rfl, isPrefix⟩)
  · intro both front arrived isPrefix
    cases front with
    | nil =>
        cases (List.cons_prefix_cons.mp isPrefix).1
        exact both.1
    | cons earlier front =>
        rcases List.cons_prefix_cons.mp isPrefix with ⟨rfl, rest⟩
        exact both.2 front arrived rest

end Miningcore.Framing
