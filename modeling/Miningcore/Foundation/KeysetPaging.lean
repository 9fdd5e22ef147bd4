import Miningcore.Foundation.KeyOrder

/-! # Keyset paging

A reader fetches rows in descending key order, page by page; every further page
starts strictly before the key of the last row seen, and a page that is not full
is the last one. Rows tied with the last row of a page are skipped. A reader
that may stop early sees the rows of one pass exactly if no tie straddles the end
of a page after which it still reads on. -/

namespace Miningcore.KeysetPaging

variable {Row Key : Type} [LinearOrder Key] (key : Row → Key) (pageSize : Nat)

def pages (fetch : Key → List Row) : Nat → List Row → List (List Row)
  | 0, page => [page]
  | fuel + 1, page =>
      page :: if page.length < pageSize then [] else
        match page.getLast? with
        | none => []
        | some last => pages fetch fuel (fetch (key last))

/-- The rows of a sequence of pages up to the first one that is not full. -/
def untilShort : List (List Row) → List Row
  | [] => []
  | page :: pages => page ++ if page.length < pageSize then [] else untilShort pages

theorem mem_untilShort {pages : List (List Row)} {row : Row}
    (member : row ∈ untilShort pageSize pages) : ∃ page ∈ pages, row ∈ page := by
  induction pages with
  | nil => cases member
  | cons page pages induction =>
      rcases List.mem_append.mp member with now | later
      · exact ⟨page, List.mem_cons_self, now⟩
      · split_ifs at later
        · cases later
        · rcases induction later with ⟨other, otherMember, inOther⟩
          exact ⟨other, List.mem_cons_of_mem page otherMember, inOther⟩

section Loop

variable {State Failure : Type} (body : State → Row → Except Failure State) (done : State → Bool)

def readRows (state : State) : List Row → Except Failure State
  | [] => .ok state
  | row :: rows => do
      if done state then return state
      readRows (← body state row) rows

/-- A loop over pages and their rows, which ends as soon as the state is done. -/
def readPages (state : State) : List (List Row) → Except Failure State
  | [] => .ok state
  | page :: pages => do
      let next ← readRows body done state page
      if page.length < pageSize ∨ done next then return next
      readPages next pages

theorem readRows_done {state : State} (isDone : done state = true) (rows : List Row) :
    readRows body done state rows = .ok state := by
  cases rows with
  | nil => rfl
  | cons row rows =>
      rw [readRows, if_pos isDone]
      rfl

theorem readRows_append (state : State) (front back : List Row) :
    readRows body done state (front ++ back) =
      (readRows body done state front).bind fun next => readRows body done next back := by
  induction front generalizing state with
  | nil => rfl
  | cons row front induction =>
      rw [List.cons_append, readRows, readRows]
      by_cases isDone : done state = true
      · rw [if_pos isDone, if_pos isDone]
        exact (readRows_done body done isDone back).symm
      · rw [if_neg isDone, if_neg isDone]
        cases body state row with
        | error failure => rfl
        | ok next => exact induction next

theorem readPages_eq (state : State) (pages : List (List Row)) :
    readPages pageSize body done state pages =
      readRows body done state (untilShort pageSize pages) := by
  induction pages generalizing state with
  | nil => rfl
  | cons page pages induction =>
      rw [readPages, untilShort, readRows_append]
      cases read : readRows body done state page with
      | error failure => rfl
      | ok next =>
          change (if page.length < pageSize ∨ done next then _ else _) = readRows body done next _
          by_cases short : page.length < pageSize
          · rw [if_pos (.inl short), if_pos short]
            rfl
          · rw [if_neg short]
            by_cases isDone : done next = true
            · rw [if_pos (.inr isDone), readRows_done body done isDone]
              rfl
            · rw [if_neg (by tauto), ← induction next]

end Loop

def traverse : Nat → List Row → List Row
  | 0, rows => rows.take pageSize
  | fuel + 1, rows =>
      rows.take pageSize ++ if rows.length < pageSize then [] else
        match (rows.take pageSize).getLast? with
        | none => []
        | some last => traverse fuel ((rows.drop pageSize).filter fun row => key row < key last)

section Descending

variable {rows : List Row}

theorem key_le_of_take {count : Nat}
    (sorted : rows.Pairwise fun earlier later => key later ≤ key earlier)
    {last : Row} (isLast : (rows.take count).getLast? = some last) :
    ∀ row ∈ rows.take count, key last ≤ key row := by
  rcases List.getLast?_eq_some_iff.mp isLast with ⟨front, split⟩
  have takeSorted := List.Pairwise.sublist (List.take_sublist count rows) sorted
  rw [split] at takeSorted ⊢
  intro row member
  rcases List.mem_append.mp member with earlier | same
  · exact (List.pairwise_append.mp takeSorted).2.2 row earlier last (List.mem_singleton_self last)
  · rw [List.mem_singleton.mp same]

theorem filter_eq_filter_drop {count : Nat}
    (sorted : rows.Pairwise fun earlier later => key later ≤ key earlier)
    {last : Row} (isLast : (rows.take count).getLast? = some last) :
    (rows.filter fun row => key row < key last) =
      (rows.drop count).filter fun row => key row < key last := by
  conv_lhs => rw [← List.take_append_drop count rows]
  rw [List.filter_append]
  have none : ((rows.take count).filter fun row => key row < key last) = [] := by
    rw [List.filter_eq_nil_iff]
    intro row member
    simpa using key_le_of_take key sorted isLast row member
  rw [none, List.nil_append]

end Descending

theorem untilShort_pages (table : List Row)
    (sorted : table.Pairwise fun earlier later => key later ≤ key earlier) (fuel : Nat)
    (rows : List Row) (rowsSublist : rows.Sublist table)
    (closed : ∀ row ∈ rows, (table.filter fun other => key other < key row) =
      rows.filter fun other => key other < key row) :
    untilShort pageSize (pages key pageSize
      (fun before => (table.filter fun row => key row < before).take pageSize) fuel
      (rows.take pageSize)) = traverse key pageSize fuel rows := by
  induction fuel generalizing rows with
  | zero => simp [pages, untilShort, traverse]
  | succ fuel induction =>
      have short : (rows.take pageSize).length < pageSize ↔ rows.length < pageSize := by
        rw [List.length_take]
        omega
      simp only [pages, untilShort, traverse, short]
      by_cases isShort : rows.length < pageSize
      · simp only [isShort, if_true]
      · simp only [isShort, if_false]
        cases isLast : (rows.take pageSize).getLast? with
        | none => simp [untilShort]
        | some last =>
            have rowsSorted := sorted.sublist rowsSublist
            have member : last ∈ rows :=
              List.mem_of_mem_take (List.mem_of_getLast? isLast)
            simp only
            rw [closed last member, filter_eq_filter_drop key rowsSorted isLast]
            congr 1
            apply induction
            · exact (List.filter_sublist.trans (List.drop_sublist _ _)).trans rowsSublist
            · intro row rowMember
              have below : key row < key last := by
                simpa using (List.mem_filter.mp rowMember).2
              have inRows : row ∈ rows :=
                List.mem_of_mem_drop (List.mem_of_mem_filter rowMember)
              rw [closed row inRows, ← filter_eq_filter_drop key rowsSorted isLast,
                List.filter_filter]
              apply List.filter_congr
              intro other _
              by_cases smaller : key other < key row
              · simp [smaller, smaller.trans below]
              · simp [smaller]

theorem traverse_sublist (fuel : Nat) (rows : List Row) :
    (traverse key pageSize fuel rows).Sublist rows := by
  induction fuel generalizing rows with
  | zero => exact List.take_sublist _ _
  | succ fuel induction =>
      rw [traverse]
      conv_rhs => rw [← List.take_append_drop pageSize rows]
      apply List.Sublist.append (List.Sublist.refl _)
      split_ifs
      · exact List.nil_sublist _
      · split
        · exact List.nil_sublist _
        · exact (induction _).trans List.filter_sublist

theorem traverse_nil (fuel : Nat) :
    traverse key pageSize fuel ([] : List Row) = [] :=
  List.sublist_nil.mp (traverse_sublist key pageSize fuel [])

theorem traverse_fuel {fuel other : Nat} {rows : List Row} (enough : rows.length ≤ fuel)
    (otherEnough : rows.length ≤ other) :
    traverse key pageSize fuel rows = traverse key pageSize other rows := by
  induction fuel generalizing other rows with
  | zero =>
      rw [List.eq_nil_of_length_eq_zero (Nat.le_zero.mp enough), traverse_nil, traverse_nil]
  | succ fuel induction =>
      cases other with
      | zero =>
          rw [List.eq_nil_of_length_eq_zero (Nat.le_zero.mp otherEnough), traverse_nil,
            traverse_nil]
      | succ other =>
          rw [traverse, traverse]
          by_cases short : rows.length < pageSize
          · rw [if_pos short, if_pos short]
          · rw [if_neg short, if_neg short]
            cases isLast : (rows.take pageSize).getLast? with
            | none => rfl
            | some last =>
                have nonempty : 0 < pageSize := by
                  by_contra zero
                  rw [Nat.eq_zero_of_not_pos zero] at isLast
                  cases isLast
                have shorter : ((rows.drop pageSize).filter fun row =>
                    key row < key last).length < rows.length := by
                  have := List.length_filter_le (fun row => decide (key row < key last))
                    (rows.drop pageSize)
                  rw [List.length_drop] at this
                  omega
                simp only
                congr 1
                apply induction
                · omega
                · omega

theorem traverse_prefix_append (fuel : Nat) {front back : List Row}
    (below : ∀ earlier ∈ front, ∀ later ∈ back, key later < key earlier) :
    traverse key pageSize fuel front <+: traverse key pageSize fuel (front ++ back) := by
  induction fuel generalizing front with
  | zero =>
      rw [traverse, traverse, List.take_append]
      exact List.prefix_append _ _
  | succ fuel induction =>
      by_cases short : front.length < pageSize
      · rw [traverse, if_pos short, List.append_nil, traverse, List.take_append]
        exact (List.prefix_append _ _).trans (List.prefix_append _ _)
      · have long : ¬(front ++ back).length < pageSize := by
          rw [List.length_append]
          omega
        have page : (front ++ back).take pageSize = front.take pageSize :=
          List.take_append_of_le_length (by omega)
        rw [traverse, traverse, if_neg short, if_neg long, page]
        apply (List.prefix_append_right_inj _).mpr
        cases isLast : (front.take pageSize).getLast? with
        | none => exact List.prefix_refl _
        | some last =>
            have inFront : last ∈ front := List.mem_of_mem_take (List.mem_of_getLast? isLast)
            have rest : (((front ++ back).drop pageSize).filter fun row => key row < key last) =
                ((front.drop pageSize).filter fun row => key row < key last) ++ back := by
              rw [List.drop_append_of_le_length (by omega), List.filter_append]
              congr 1
              rw [List.filter_eq_self]
              exact fun later member => decide_eq_true (below last inFront later member)
            simp only [rest]
            apply induction
            intro earlier member later laterMember
            exact below earlier (List.mem_of_mem_drop (List.mem_of_mem_filter member)) later
              laterMember

/-- Wherever a page of the rows ends and the reader reads on after it, the next
row has a smaller key. -/
def NoTie (keeps : List Row → Prop) (front rows : List Row) : Prop :=
  ∀ count earlier later, 0 < count → rows[count * pageSize - 1]? = some earlier →
    rows[count * pageSize]? = some later → keeps (front ++ rows.take (count * pageSize)) →
    key later < key earlier

theorem NoTie.of_append {keeps : List Row → Prop} {front rows more : List Row}
    (noTie : NoTie key pageSize keeps front (rows ++ more)) :
    NoTie key pageSize keeps front rows := by
  intro count earlier later positive isEarlier isLater reads
  have inside := (List.getElem?_eq_some_iff.mp isLater).1
  apply noTie count earlier later positive
  · rw [List.getElem?_append_left (by omega), isEarlier]
  · rw [List.getElem?_append_left inside, isLater]
  · rwa [List.take_append_of_le_length inside.le]

theorem traverse_full (positive : 0 < pageSize) (fuel : Nat) (rows : List Row)
    (full : pageSize ≤ rows.length) :
    ∃ last, rows[pageSize - 1]? = some last ∧ (rows.take pageSize).getLast? = some last ∧
      traverse key pageSize (fuel + 1) rows = rows.take pageSize ++
        traverse key pageSize fuel ((rows.drop pageSize).filter fun row => key row < key last) := by
  have inside : pageSize - 1 < rows.length := by omega
  have isLast : (rows.take pageSize).getLast? = some rows[pageSize - 1] := by
    rw [List.getLast?_take, if_neg (by omega), List.getElem?_eq_getElem inside]
    rfl
  refine ⟨rows[pageSize - 1], List.getElem?_eq_getElem inside, isLast, ?_⟩
  rw [traverse, if_neg (by omega), isLast]

theorem filter_drop_eq {rows : List Row} {count : Nat} {bound : Key}
    (sorted : rows.Pairwise fun earlier later => key later ≤ key earlier)
    (below : ∀ later, rows[count]? = some later → key later < bound) :
    ((rows.drop count).filter fun row => key row < bound) = rows.drop count := by
  rw [List.filter_eq_self]
  intro row member
  cases next : rows[count]? with
  | none =>
      rw [List.drop_eq_nil_of_le (List.getElem?_eq_none_iff.mp next)] at member
      cases member
  | some later =>
      have split : rows.drop count = later :: rows.drop (count + 1) := by
        rcases List.getElem?_eq_some_iff.mp next with ⟨inside, equal⟩
        rw [List.drop_eq_getElem_cons inside, equal]
      have dropSorted := sorted.sublist (List.drop_sublist count rows)
      rw [split, List.pairwise_cons] at dropSorted
      rw [split] at member
      rw [decide_eq_true_iff]
      rcases List.mem_cons.mp member with rfl | further
      · exact below row next
      · exact (dropSorted.1 row further).trans_lt (below later next)

section Reader

variable (keeps : List Row → Prop)
variable (positive : 0 < pageSize)

include positive in
theorem noTie_drop {front rows : List Row} :
    NoTie key pageSize keeps front rows ↔
      (∀ earlier later, rows[pageSize - 1]? = some earlier → rows[pageSize]? = some later →
        keeps (front ++ rows.take pageSize) → key later < key earlier) ∧
      NoTie key pageSize keeps (front ++ rows.take pageSize) (rows.drop pageSize) := by
  have shift (count : Nat) : (count + 1) * pageSize = pageSize + count * pageSize := by
    rw [Nat.succ_mul, Nat.add_comm]
  have take (count : Nat) : front ++ rows.take ((count + 1) * pageSize) =
      front ++ rows.take pageSize ++ (rows.drop pageSize).take (count * pageSize) := by
    rw [shift, List.take_add, List.append_assoc]
  have before (count : Nat) (some : 0 < count) : (rows.drop pageSize)[count * pageSize - 1]? =
      rows[(count + 1) * pageSize - 1]? := by
    have : 0 < count * pageSize := Nat.mul_pos some positive
    rw [List.getElem?_drop, shift]
    congr 1
    omega
  have after (count : Nat) : (rows.drop pageSize)[count * pageSize]? =
      rows[(count + 1) * pageSize]? := by
    rw [List.getElem?_drop, shift]
  constructor
  · intro noTie
    constructor
    · intro earlier later isEarlier isLater reads
      exact noTie 1 earlier later one_pos (by simpa using isEarlier) (by simpa using isLater)
        (by simpa using reads)
    · intro count earlier later some isEarlier isLater reads
      rw [before count some] at isEarlier
      rw [after] at isLater
      rw [← take] at reads
      exact noTie (count + 1) earlier later (Nat.succ_pos count) isEarlier isLater reads
  · rintro ⟨first, rest⟩ count earlier later some isEarlier isLater reads
    obtain _ | _ | count := count
    · omega
    · exact first earlier later (by simpa using isEarlier) (by simpa using isLater)
        (by simpa using reads)
    · rw [← before (count + 1) (Nat.succ_pos count)] at isEarlier
      rw [← after] at isLater
      rw [take] at reads
      exact rest (count + 1) earlier later (Nat.succ_pos count) isEarlier isLater reads

include positive in
theorem traverse_of_noTie (fuel : Nat) (front rows : List Row) (enough : rows.length ≤ fuel)
    (sorted : rows.Pairwise fun earlier later => key later ≤ key earlier)
    (noTie : NoTie key pageSize keeps front rows) :
    traverse key pageSize fuel rows = rows ∨
      ∃ count, ¬keeps (front ++ rows.take count) ∧
        rows.take count <+: traverse key pageSize fuel rows := by
  induction fuel generalizing front rows with
  | zero =>
      left
      rw [List.eq_nil_of_length_eq_zero (Nat.le_zero.mp enough), traverse_nil]
  | succ fuel induction =>
      by_cases full : pageSize ≤ rows.length
      · rcases traverse_full key pageSize positive fuel rows full with ⟨last, isLast, -, step⟩
        rcases (noTie_drop key pageSize keeps positive).mp noTie with ⟨first, rest⟩
        rw [step]
        by_cases reads : keeps (front ++ rows.take pageSize)
        · rw [filter_drop_eq key sorted fun later next => first last later isLast next reads]
          have dropEnough : (rows.drop pageSize).length ≤ fuel := by
            rw [List.length_drop]
            omega
          rcases induction (front ++ rows.take pageSize) (rows.drop pageSize) dropEnough
            (sorted.sublist (List.drop_sublist _ _)) rest with all | ⟨count, stops, shown⟩
          · left
            rw [all, List.take_append_drop]
          · right
            refine ⟨pageSize + count, ?_, ?_⟩
            · rwa [List.take_add, ← List.append_assoc]
            · rw [List.take_add]
              exact (List.prefix_append_right_inj _).mpr shown
        · exact .inr ⟨pageSize, reads, List.prefix_append _ _⟩
      · left
        rw [traverse, if_pos (by omega), List.append_nil, List.take_of_length_le (by omega)]

include positive in
theorem traverse_of_tie (closed : ∀ left right, keeps (left ++ right) → keeps left)
    (fuel : Nat) (front rows : List Row) (enough : rows.length ≤ fuel)
    (sorted : rows.Pairwise fun earlier later => key later ≤ key earlier)
    (tie : ¬NoTie key pageSize keeps front rows) :
    ∃ count later tail, keeps (front ++ rows.take count) ∧ rows[count]? = some later ∧
      traverse key pageSize fuel rows = rows.take count ++ tail ∧
      ∀ row ∈ tail, key row < key later := by
  induction fuel generalizing front rows with
  | zero =>
      exfalso
      apply tie
      intro count earlier later _ _ isLater
      rw [List.eq_nil_of_length_eq_zero (Nat.le_zero.mp enough)] at isLater
      cases isLater
  | succ fuel induction =>
      have full : pageSize ≤ rows.length := by
        by_contra short
        apply tie
        intro count earlier later some _ isLater
        have := (List.getElem?_eq_some_iff.mp isLater).1
        have := Nat.le_mul_of_pos_left pageSize some
        omega
      rcases traverse_full key pageSize positive fuel rows full with ⟨last, isLast, lastOf, step⟩
      rw [noTie_drop key pageSize keeps positive] at tie
      rw [step]
      by_cases first : ∀ earlier later, rows[pageSize - 1]? = some earlier →
          rows[pageSize]? = some later → keeps (front ++ rows.take pageSize) →
          key later < key earlier
      · have rest := fun noTie => tie ⟨first, noTie⟩
        have reads : keeps (front ++ rows.take pageSize) := by
          by_contra stops
          apply rest
          intro count earlier later _ _ _ reads
          exact absurd (closed _ _ reads) stops
        have kept := filter_drop_eq key sorted fun later next =>
          first last later isLast next reads
        have dropEnough : (rows.drop pageSize).length ≤ fuel := by
          rw [List.length_drop]
          omega
        rcases induction (front ++ rows.take pageSize) (rows.drop pageSize) dropEnough
          (sorted.sublist (List.drop_sublist _ _)) rest with
          ⟨count, later, tail, readsOn, isLater, shown, below⟩
        refine ⟨pageSize + count, later, tail, ?_, ?_, ?_, below⟩
        · rwa [List.take_add, ← List.append_assoc]
        · rwa [List.getElem?_drop] at isLater
        · rw [kept, shown, List.take_add, List.append_assoc]
      · push Not at first
        rcases first with ⟨earlier, later, isEarlier, isLater, reads, tied⟩
        rw [isLast, Option.some.injEq] at isEarlier
        subst isEarlier
        refine ⟨pageSize, later, _, reads, isLater, rfl, ?_⟩
        intro row member
        have inTail := (traverse_sublist key pageSize fuel _).subset member
        have below : key row < key last := by simpa using (List.mem_filter.mp inTail).2
        exact below.trans_le tied

end Reader

end Miningcore.KeysetPaging
