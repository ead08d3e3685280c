import Cadence.Proofs.Occurrence.Enumeration

/-!
# A walk call by call

A caller may hold on to a cursor and ask it for one date after another, for as long as it likes.
This module says what every cursor looks like that a query's walk can come to, however often it was
asked.

* `Cursor.IsAfter` ties the counters of a cursor to the answers given so far.  One call keeps it
  (`IsAfter.next`), so any number of calls do (`isAfter_walk`).
* `WordCursor` is the same walk with its counters in machine words, where a counter that left its
  range would wrap without a sign.  None does: `WordCursor.walk_eq` and
  `WordCursor.sizeBounds_eq`.
-/

namespace Cadence

namespace Query

variable {query : Query} {offset : Nat}

/-- A walk goes on from its offset, and never past the horizon. -/
theorem advance_bounds (within : offset ≤ query.horizon) :
    offset ≤ (query.advance offset).2 ∧ (query.advance offset).2 ≤ query.horizon := by
  fun_induction query.advance offset with
  | case1 offset lt _ => exact ⟨Nat.le_succ offset, lt⟩
  | case2 offset lt _ _ _ => exact ⟨Nat.le_succ offset, lt⟩
  | case3 offset lt _ _ _ ih => exact ⟨Nat.le_of_succ_le (ih lt).1, (ih lt).2⟩
  | case4 offset _ => exact ⟨Nat.le_refl offset, within⟩

theorem length_seriesFrom_le (query : Query) (offset : Nat) :
    (query.seriesFrom offset).length ≤ query.horizon - offset := by
  calc
    (query.seriesFrom offset).length
      ≤ ((List.range' (offset + 1) (query.horizon - offset)).filterMap
          query.anchor.addDays?).length := List.length_filter_le _ _
    _ ≤ (List.range' (offset + 1) (query.horizon - offset)).length := List.length_filterMap_le _ _
    _ = query.horizon - offset := List.length_range'

theorem allowance_le_limit (query : Query) : query.allowance ≤ query.limit := by
  rw [allowance_eq]
  cases query.ending with
  | after count => exact Nat.min_le_left _ _
  | never | on _ => exact Nat.le_refl _

end Query

/-! ## Any number of calls -/

namespace Cursor

/-- The answers to so many calls, and the cursor after them. -/
def walk (cursor : Cursor) : Nat → List (Option Date) × Cursor
  | 0 => ([], cursor)
  | calls + 1 =>
    let (answers, after) := cursor.walk calls
    (answers ++ [after.next.1], after.next.2)

/-- What one call does: it shows a date, or it stops the walk for good. -/
theorem next_cases (cursor : Cursor) (within : cursor.offset ≤ cursor.query.horizon) :
    (∃ date offset, cursor.next =
        (some date, { cursor with offset, remaining := cursor.remaining - 1 }) ∧
      cursor.finished = false ∧ 1 ≤ cursor.remaining ∧ offset ≤ cursor.query.horizon) ∨
    ∃ offset, cursor.next = (none, { cursor with offset, finished := true }) ∧
      offset ≤ cursor.query.horizon := by
  unfold next
  split
  · exact .inr ⟨cursor.offset, rfl, within⟩
  · next unfinished =>
    simp only [Bool.or_eq_true, beq_iff_eq, not_or, Bool.not_eq_true] at unfinished
    have bound := (Query.advance_bounds within).2
    split
    · next date offset found =>
      rw [found] at bound
      exact .inl ⟨date, offset, rfl, unfinished.1, Nat.one_le_iff_ne_zero.mpr unfinished.2, bound⟩
    · next offset found =>
      rw [found] at bound
      exact .inr ⟨offset, rfl, bound⟩

theorem next_of_finished {cursor : Cursor} (finished : cursor.finished = true) :
    cursor.next = (none, cursor) := by
  obtain ⟨query, offset, remaining, _⟩ := cursor
  cases finished
  rfl

/-- The query's walk has come to this cursor after it showed these dates, and then none at as many
further calls. -/
structure IsAfter (query : Query) (shown : List Date) (misses : Nat) (cursor : Cursor) : Prop where
  query_eq : cursor.query = query
  within : cursor.offset ≤ query.horizon
  spent : shown.length + cursor.remaining = query.allowance
  split : shown ++ cursor.dates = query.dates
  finished : 0 < misses → cursor.finished = true

variable {query : Query} {shown : List Date} {misses : Nat} {cursor : Cursor}

theorem isAfter_cursor (query : Query) : IsAfter query [] 0 query.cursor where
  query_eq := rfl
  within := Nat.zero_le _
  spent := Nat.zero_add _
  split := rfl
  finished missed := absurd missed (Nat.lt_irrefl 0)

/-- One more call shows the next date, if no call has missed so far, or it misses. -/
theorem IsAfter.next (state : IsAfter query shown misses cursor) :
    (∃ date after, cursor.next = (some date, after) ∧ misses = 0 ∧
        IsAfter query (shown ++ [date]) 0 after) ∨
      ∃ after, cursor.next = (none, after) ∧ IsAfter query shown (misses + 1) after := by
  obtain ⟨rfl, within, spent, split, finished⟩ := state
  have pending := cursor.pending_next
  rw [← dates_eq_pending] at pending
  rcases cursor.next_cases within with ⟨date, offset, step, unfinished, positive, bound⟩ |
    ⟨offset, step, bound⟩
  · left
    have noMisses : misses = 0 := by
      refine Nat.eq_zero_of_not_pos fun missed => ?_
      rw [finished missed] at unfinished
      contradiction
    rw [step] at pending
    refine ⟨date, _, step, noMisses, rfl, bound, ?_, ?_, fun missed => absurd missed (by decide)⟩
    · rw [List.length_append, List.length_singleton]
      simp only
      omega
    · rw [← split, pending, dates_eq_pending, List.append_assoc, List.singleton_append]
  · right
    rw [step] at pending
    refine ⟨_, step, rfl, bound, spent, ?_, fun _ => rfl⟩
    -- A finished cursor has no dates, and the one before it had none left.
    rw [← split, pending, dates_eq_pending]
    rfl

theorem isAfter_walk (query : Query) (calls : Nat) :
    ∃ shown misses, (query.cursor.walk calls).1 = shown.map some ++ List.replicate misses none ∧
      shown.length + misses = calls ∧ IsAfter query shown misses (query.cursor.walk calls).2 := by
  induction calls with
  | zero => exact ⟨[], 0, rfl, rfl, isAfter_cursor query⟩
  | succ calls ih =>
    obtain ⟨shown, misses, answers, counted, state⟩ := ih
    simp only [walk, answers]
    rcases state.next with ⟨date, after, step, rfl, next⟩ | ⟨after, step, next⟩
    · refine ⟨shown ++ [date], 0, ?_, ?_, ?_⟩
      · simp [step]
      · rw [List.length_append, List.length_singleton]
        omega
      · rwa [step]
    · refine ⟨shown, misses + 1, ?_, by omega, ?_⟩
      · rw [step, List.append_assoc, List.replicate_succ']
      · rwa [step]

theorem sizeBounds_le (cursor : Cursor) :
    cursor.sizeBounds.1 ≤ cursor.dates.length ∧ cursor.dates.length ≤ cursor.sizeBounds.2 := by
  have reach := cursor.query.length_seriesFrom_le cursor.offset
  rw [dates_eq_pending, pending, sizeBounds]
  split
  · exact ⟨Nat.le_refl 0, Nat.le_refl 0⟩
  · rw [List.length_take]
    exact ⟨Nat.zero_le _, by simp only; omega⟩

end Cursor

/-! ## Counters in machine words -/

/-- A cursor with its counters in words of 32 and 64 bits, whose sums and differences wrap. -/
structure WordCursor where
  query : Query
  offset : UInt32
  remaining : UInt64
  finished : Bool

theorem toNat_succ_of_lt {offset horizon : UInt32} (lt : offset < horizon) :
    (offset + 1).toNat = offset.toNat + 1 := by
  have bound := horizon.toNat_lt
  rw [UInt32.lt_iff_toNat_lt] at lt
  rw [UInt32.toNat_add, UInt32.toNat_one]
  omega

namespace WordCursor

def advance (query : Query) (offset : UInt32) : Option Date × UInt32 :=
  if offset < .ofNat query.horizon then
    match query.dateAt? (offset + 1).toNat with
    | none => (none, offset + 1)
    | some date =>
      if query.fires date then (some date, offset + 1) else advance query (offset + 1)
  else (none, offset)
termination_by (UInt32.ofNat query.horizon).toNat - offset.toNat
decreasing_by
  have lt : offset < .ofNat query.horizon := ‹_›
  have succ := toNat_succ_of_lt lt
  rw [UInt32.lt_iff_toNat_lt] at lt
  omega

def next (cursor : WordCursor) : Option Date × WordCursor :=
  if cursor.finished || cursor.remaining == 0 then
    (none, { cursor with finished := true })
  else
    match advance cursor.query cursor.offset with
    | (some date, offset) =>
      (some date, { cursor with offset, remaining := cursor.remaining - 1 })
    | (none, offset) => (none, { cursor with offset, finished := true })

def sizeBounds (cursor : WordCursor) : UInt64 × UInt64 :=
  let daysLeft := (.ofNat cursor.query.horizon - cursor.offset).toUInt64
  if cursor.finished then (0, 0)
  else (0, if cursor.remaining ≤ daysLeft then cursor.remaining else daysLeft)

def walk (cursor : WordCursor) : Nat → List (Option Date) × WordCursor
  | 0 => ([], cursor)
  | calls + 1 =>
    let (answers, after) := cursor.walk calls
    (answers ++ [after.next.1], after.next.2)

/-- The cursor that the words stand for. -/
def cursor (words : WordCursor) : Cursor :=
  { query := words.query, offset := words.offset.toNat, remaining := words.remaining.toNat,
    finished := words.finished }

end WordCursor

namespace Query

/-- The walk in words, before its first step. -/
def wordCursor (query : Query) : WordCursor :=
  { query, offset := 0, remaining := .ofNat query.allowance, finished := false }

end Query

namespace WordCursor

variable {query : Query} {words : WordCursor}

theorem advance_eq (fits : query.horizon < UInt32.size) (offset : UInt32) :
    query.advance offset.toNat =
      ((advance query offset).1, (advance query offset).2.toNat) := by
  have horizon := UInt32.toNat_ofNat_of_lt' fits
  -- The cases of the walk: a stop, a date of the series, a date that is not, and the horizon.
  fun_induction advance query offset with
  | case1 offset lt stopped =>
    have succ := toNat_succ_of_lt lt
    rw [UInt32.lt_iff_toNat_lt, horizon] at lt
    rw [succ] at stopped ⊢
    rw [Query.advance, if_pos lt, stopped]
  | case2 offset lt date found fires =>
    have succ := toNat_succ_of_lt lt
    rw [UInt32.lt_iff_toNat_lt, horizon] at lt
    rw [succ] at found ⊢
    rw [Query.advance, if_pos lt, found]
    exact if_pos fires
  | case3 offset lt date found silent ih =>
    have succ := toNat_succ_of_lt lt
    rw [UInt32.lt_iff_toNat_lt, horizon] at lt
    rw [succ] at found ih
    rw [Query.advance, if_pos lt, found, ← ih]
    exact if_neg silent
  | case4 offset past =>
    rw [UInt32.lt_iff_toNat_lt, horizon] at past
    rw [Query.advance, if_neg past]

theorem next_eq (fits : words.query.horizon < UInt32.size) :
    words.cursor.next = (words.next.1, words.next.2.cursor) := by
  obtain ⟨query, offset, remaining, finished⟩ := words
  have stops : (remaining == 0) = (remaining.toNat == 0) := by
    rw [Bool.eq_iff_iff, beq_iff_eq, beq_iff_eq, ← UInt64.toNat_inj, UInt64.toNat_zero]
  simp only [next, Cursor.next, cursor, advance_eq fits, stops]
  by_cases stopped : (finished || remaining.toNat == 0) = true
  · rw [if_pos stopped, if_pos stopped]
  · rw [if_neg stopped, if_neg stopped]
    -- A walk that goes on has a date left to take off.
    have positive : 1 ≤ remaining := by
      simp only [Bool.or_eq_true, beq_iff_eq, not_or] at stopped
      rw [UInt64.le_iff_toNat_le, UInt64.toNat_one]
      omega
    rcases advance query offset with ⟨_ | date, reached⟩
    · rfl
    · simp only [UInt64.toNat_sub_of_le _ _ positive, UInt64.toNat_one]

theorem query_next (words : WordCursor) : words.next.2.query = words.query := by
  unfold next
  split
  · rfl
  · split <;> rfl

theorem sizeBounds_eq (fits : words.query.horizon < UInt32.size)
    (within : words.cursor.offset ≤ words.query.horizon) :
    words.cursor.sizeBounds = (words.sizeBounds.1.toNat, words.sizeBounds.2.toNat) := by
  have horizon := UInt32.toNat_ofNat_of_lt' fits
  have le : words.offset ≤ .ofNat words.query.horizon := by
    rw [UInt32.le_iff_toNat_le, horizon]
    exact within
  have daysLeft : (.ofNat words.query.horizon - words.offset).toUInt64.toNat =
      words.query.horizon - words.offset.toNat := by
    rw [UInt32.toNat_toUInt64, UInt32.toNat_sub_of_le _ _ le, horizon]
  show (if words.finished then (0, 0)
    else (0, min words.remaining.toNat (words.query.horizon - words.offset.toNat))) = _
  unfold sizeBounds
  by_cases finished : words.finished = true
  · rw [if_pos finished, if_pos finished]
    rfl
  · rw [if_neg finished, if_neg finished, Nat.min_def, ← daysLeft]
    simp only [UInt64.le_iff_toNat_le]
    split <;> rfl

/-- The walk in words is the walk. -/
theorem walk_eq (fits : query.horizon < UInt32.size) (limit : query.limit < UInt64.size)
    (calls : Nat) :
    query.cursor.walk calls =
      ((query.wordCursor.walk calls).1, (query.wordCursor.walk calls).2.cursor) ∧
      (query.wordCursor.walk calls).2.query = query := by
  induction calls with
  | zero =>
    have allowance := UInt64.toNat_ofNat_of_lt' (Nat.lt_of_le_of_lt query.allowance_le_limit limit)
    refine ⟨?_, rfl⟩
    rw [walk, Cursor.walk, Query.cursor, Query.wordCursor, cursor, allowance]
    rfl
  | succ calls ih =>
    obtain ⟨same, kept⟩ := ih
    have step := next_eq (show (query.wordCursor.walk calls).2.query.horizon < _ by rwa [kept])
    refine ⟨?_, (query_next _).trans kept⟩
    rw [Cursor.walk, same]
    simp only [step]
    rfl

end WordCursor

/-- Whatever calls a walk has answered, it has shown the first dates of its query and then none for
good, and those not shown are still to come.  Its offset is within the horizon, and what it has
shown and what it may still show make up what it could show at first, so the dates to come are
within its bounds on their number.  No counter of it leaves the range of a machine word. -/
theorem Query.walk_keeps (query : Query) (calls : Nat) :
    let (answers, cursor) := query.cursor.walk calls
    ∃ shown misses,
      (answers = shown.map some ++ List.replicate misses none ∧ shown.length + misses = calls) ∧
      shown ++ cursor.dates = query.dates ∧
      cursor.offset ≤ query.horizon ∧
      shown.length + cursor.remaining = query.allowance ∧
      (cursor.sizeBounds.1 ≤ cursor.dates.length ∧ cursor.dates.length ≤ cursor.sizeBounds.2) ∧
      (0 < misses → cursor.next = (none, cursor) ∧ cursor.sizeBounds = (0, 0)) ∧
      (query.horizon < UInt32.size → query.limit < UInt64.size →
        let (wordAnswers, words) := query.wordCursor.walk calls
        wordAnswers = answers ∧ words.cursor = cursor ∧
          (words.sizeBounds.1.toNat, words.sizeBounds.2.toNat) = cursor.sizeBounds) := by
  obtain ⟨shown, misses, answers, counted, state⟩ := Cursor.isAfter_walk query calls
  refine ⟨shown, misses, ⟨answers, counted⟩, state.split, state.within, state.spent,
    Cursor.sizeBounds_le _, ?_, ?_⟩
  · intro missed
    have finished := state.finished missed
    exact ⟨Cursor.next_of_finished finished, by rw [Cursor.sizeBounds, if_pos finished]⟩
  · intro horizon limit
    obtain ⟨same, kept⟩ := WordCursor.walk_eq horizon limit calls
    have within := state.within
    rw [same] at within ⊢
    refine ⟨rfl, rfl, (WordCursor.sizeBounds_eq ?_ ?_).symm⟩
    · rwa [kept]
    · rwa [kept]

/-- A walk that may show two days shows them at its first two calls, and has stopped for good after
the third. -/
theorem Query.walk_past_two_days :
    let query : Query := { rule := .everyDay, anchor := ⟨739251, by decide⟩, limit := 2 }
    let (answers, cursor) := query.cursor.walk 4
    query.horizon < UInt32.size ∧ query.limit < UInt64.size ∧
      answers = [some ⟨739252, by decide⟩, some ⟨739253, by decide⟩, none, none] ∧
      cursor.next = (none, cursor) ∧ cursor.sizeBounds = (0, 0) ∧
      (query.wordCursor.walk 4).1 = answers := by
  intro query
  have horizon : query.horizon < UInt32.size := by decide
  have limit : query.limit < UInt64.size := by decide
  have dates : query.dates = [⟨739252, by decide⟩, ⟨739253, by decide⟩] := by
    rw [dates_eq_take_series]
    decide +kernel
  have kept := walk_keeps query 4
  generalize query.cursor.walk 4 = walked at kept ⊢
  obtain ⟨answers, cursor⟩ := walked
  obtain ⟨shown, misses, ⟨rfl, counted⟩, split, _, spent, ⟨_, most⟩, stopped, words⟩ := kept
  have few : shown.length ≤ 2 := by
    have allowance : query.allowance = 2 := rfl
    omega
  obtain ⟨stays, bounds⟩ := stopped (by omega)
  -- Nothing is left to come, so both dates have been shown.
  have none : cursor.dates = [] := by
    rw [bounds] at most
    exact List.length_eq_zero_iff.mp (Nat.le_zero.mp most)
  rw [none, List.append_nil, dates] at split
  subst split
  have two : misses = 2 := by
    simp only [List.length_cons, List.length_nil] at counted
    omega
  subst two
  exact ⟨horizon, limit, rfl, stays, bounds, (words horizon limit).1⟩

end Cadence
