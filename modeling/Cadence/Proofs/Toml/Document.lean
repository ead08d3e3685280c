import Cadence.Proofs.Toml.Record

/-!
# What no document holds

A TOML document cannot name a value and leave it out, so what it holds under a key was written
there (`ne_null_of_document?`).  Values are never read as null, and each line that is added to a
document keeps what the ones before it wrote, or replaces it by a larger table.

Nor does it hold a list that nests deeper than `deepest`: a text with one is no document
(`document?_of_deep`).
-/

namespace Cadence.Toml

variable {text rest : List Char} {key : String} {value : Datum} {node : Node}
  {entries result : Entries} {lines : List Line} {draft next : Draft}

/-! ## Values -/

theorem bare?_ne_null : bare? text ≠ some .null := by
  intro reads
  unfold bare? at reads
  split at reads
  · simp at reads
  split at reads
  · simp at reads
  split at reads
  · split at reads <;> simp at reads
  split at reads
  · next found =>
    cases reads
    unfold float? at found
    dsimp only at found
    split at found
    · simp at found
    · obtain ⟨number, _, same⟩ := Option.map_eq_some_iff.mp found
      split at same <;> contradiction
  · split at reads <;> simp at reads

theorem takeScalar?_ne_null (reads : takeScalar? text = some (value, rest)) : value ≠ .null := by
  unfold takeScalar? at reads
  split at reads
  · cases reads
    exact nofun
  · obtain ⟨word, found, same⟩ := Option.map_eq_some_iff.mp reads
    cases same
    rintro rfl
    exact bare?_ne_null found

theorem takeValue?_ne_null {room : Nat} {taken : Taken Datum text}
    (reads : takeValue? room text = some taken) : taken.value ≠ .null := by
  unfold takeValue? at reads
  split at reads
  · split at reads
    · simp at reads
    · obtain ⟨items, _, rfl⟩ := Option.map_eq_some_iff.mp reads
      simp
  · split at reads
    · simp at reads
    split at reads
    · rw [← Option.some.inj reads]
      simp
    · simp only [Option.bind_eq_bind, Option.bind_eq_some_iff, inlineTable?,
        Option.map_eq_some_iff] at reads
      obtain ⟨fields, _, table, ⟨entries, _, rfl⟩, same⟩ := reads
      rw [← Option.some.inj same]
      simp
  · split at reads
    · next found =>
      rw [← Option.some.inj reads]
      exact takeScalar?_ne_null found
    · simp at reads

/-! ## Lines -/

/-- The line adds no null. -/
def Line.NoNull : Line → Prop
  | .entry _ value => value ≠ .null
  | .table _ | .element _ => True

theorem takeLine?_noNull {line : Line} (reads : takeLine? text = some (line, rest)) :
    line.NoNull := by
  unfold takeLine? at reads
  split at reads
  · simp only [Option.bind_eq_bind, Option.bind_eq_some_iff] at reads
    obtain ⟨_, _, _, _, same⟩ := reads
    cases same
    trivial
  · simp only [Option.bind_eq_bind, Option.bind_eq_some_iff] at reads
    obtain ⟨_, _, _, _, same⟩ := reads
    cases same
    trivial
  · simp only [Option.bind_eq_bind, Option.bind_eq_some_iff] at reads
    obtain ⟨_, _, taken, found, same⟩ := reads
    cases same
    exact takeValue?_ne_null found

theorem lines?_noNull (reads : lines? text = some lines) : ∀ line ∈ lines, line.NoNull := by
  fun_induction lines? text generalizing lines with
  | case1 => contradiction
  | case2 =>
    cases reads
    exact nofun
  | case3 => contradiction
  | case4 text start _ _ line rest taken _ _ ih =>
    obtain ⟨later, found, rfl⟩ := Option.map_eq_some_iff.mp reads
    exact List.forall_mem_cons.mpr ⟨takeLine?_noNull taken, ih found⟩
  | case5 => contradiction

/-! ## Tables -/

/-- No null stands right under a key. -/
def Entries.NoNull (entries : Entries) : Prop := ∀ entry ∈ entries, entry.2 ≠ .value .null

theorem Entries.NoNull.push (noNull : entries.NoNull) (written : node ≠ .value .null) :
    (entries.push key node).NoNull := by
  rw [Entries.push, Entries.NoNull, List.forall_mem_append, List.forall_mem_singleton]
  exact ⟨noNull, written⟩

theorem Entries.NoNull.replace (noNull : entries.NoNull) (written : node ≠ .value .null) :
    (entries.replace key node).NoNull := by
  rw [Entries.replace, Entries.NoNull, List.forall_mem_map]
  intro entry member
  split
  · exact written
  · exact noNull entry member

theorem Entries.NoNull.modify? {onPath origin : Origin}
    {change : Origin → Entries → Option Entries} {path : List String} (noNull : entries.NoNull)
    (keeps : ∀ origin result, change origin entries = some result → NoNull result)
    (modified : Entries.modify? onPath change origin entries path = some result) :
    result.NoNull := by
  unfold Entries.modify? at modified
  split at modified
  · exact keeps _ _ modified
  split at modified
  · obtain ⟨inner, _, rfl⟩ := Option.map_eq_some_iff.mp modified
    exact noNull.push (by simp)
  · split at modified
    · contradiction
    · obtain ⟨inner, _, rfl⟩ := Option.map_eq_some_iff.mp modified
      exact noNull.replace (by simp)
  · obtain ⟨inner, _, rfl⟩ := Option.map_eq_some_iff.mp modified
    exact noNull.replace (by simp)
  · contradiction

/-- A header puts a table or an element under its key, be the key new or not. -/
theorem Entries.NoNull.addHeader? {path : List String} (noNull : entries.NoNull)
    (added : Entries.addTable? path key entries = some result ∨
      Entries.addElement? path key entries = some result) : result.NoNull := by
  rcases added with added | added <;> refine noNull.modify? (fun _ result changed => ?_) added
  all_goals
    split at changed
    · cases changed
      exact noNull.push (by simp)
    · cases changed
      exact noNull.replace (by simp)
    · contradiction

theorem Entries.NoNull.addEntry? {path : List String} (noNull : entries.NoNull)
    (written : value ≠ .null) (added : Entries.addEntry? path key value entries = some result) :
    result.NoNull := by
  refine noNull.modify? (fun _ result changed => ?_) added
  split at changed
  · cases changed
    exact noNull.push fun same => written (Node.value.inj same)
  · contradiction

theorem add?_noNull {line : Line} (noNull : draft.root.NoNull) (written : line.NoNull)
    (added : draft.add? line = some next) : next.root.NoNull := by
  cases line with
  | table path =>
    simp only [Draft.add?, Option.bind_eq_bind, Option.bind_eq_some_iff] at added
    obtain ⟨key, _, root, found, same⟩ := added
    cases same
    exact noNull.addHeader? (.inl found)
  | element path =>
    simp only [Draft.add?, Option.bind_eq_bind, Option.bind_eq_some_iff] at added
    obtain ⟨key, _, root, found, same⟩ := added
    cases same
    exact noNull.addHeader? (.inr found)
  | entry path value =>
    simp only [Draft.add?, Option.bind_eq_bind, Option.bind_eq_some_iff] at added
    obtain ⟨key, _, root, found, same⟩ := added
    cases same
    exact noNull.modify? (fun _ _ => noNull.addEntry? written) found

theorem foldlM_noNull (noNull : draft.root.NoNull) (written : ∀ line ∈ lines, line.NoNull)
    (added : lines.foldlM Draft.add? draft = some next) : next.root.NoNull := by
  induction lines generalizing draft with
  | nil =>
    cases added
    exact noNull
  | cons line lines ih =>
    obtain ⟨first, later⟩ := List.forall_mem_cons.mp written
    rw [List.foldlM_cons, Option.bind_eq_bind, Option.bind_eq_some_iff] at added
    obtain ⟨middle, step, rest⟩ := added
    exact ih (add?_noNull noNull first step) later rest

theorem fields_noNull (noNull : entries.NoNull) : ∀ field ∈ fields entries, field.2 ≠ .null := by
  rw [fields_eq_map, List.forall_mem_map]
  rintro ⟨key, node⟩ member
  cases node with
  | value datum =>
    rintro rfl
    exact noNull _ member rfl
  | table | elements => exact nofun

theorem ne_null_of_document? {text : String} {found : List (String × Datum)}
    (reads : document? text = some found) : ∀ field ∈ found, field.2 ≠ .null := by
  simp only [document?, Option.bind_eq_bind, Option.bind_eq_some_iff] at reads
  obtain ⟨lines, read, draft, drawn, same⟩ := reads
  cases same
  have empty : Entries.NoNull [] := fun _ member => absurd member List.not_mem_nil
  exact fields_noNull (foldlM_noNull empty (lines?_noNull read) drawn)

/-! ## Lists that nest too deep -/

/-- Lists that nest deeper than there is room for are no value. -/
theorem takeValue?_of_deep (room : Nat) (rest : List Char) :
    takeValue? room (List.replicate (room + 1) '[' ++ rest) = none := by
  induction room with
  | zero => rw [List.replicate_succ, List.cons_append, takeValue?, if_pos rfl]
  | succ room ih =>
    have solid : skipGap false (List.replicate (room + 1) '[' ++ rest) =
        some (List.replicate (room + 1) '[' ++ rest) := by
      rw [List.replicate_succ, List.cons_append, skipGap] <;> simp [isBlank]
    -- Behind the first bracket the same lists stand as an item, with room for one level less.
    rw [List.replicate_succ, List.cons_append, takeValue?, if_neg (Nat.succ_ne_zero room),
      Option.map_eq_none_iff, Nat.add_sub_cancel, takeItems?]
    split
    · rfl
    · next gap =>
      rw [solid, List.replicate_succ] at gap
      simp at gap
    · next gap =>
      rw [solid] at gap
      cases gap
      split
      · rfl
      · next found =>
        rw [ih] at found
        contradiction

theorem takeLine?_of_deep (bare : IsBareKey key) (rest : List Char) :
    takeLine? (key.toList ++ ' ' :: '=' :: ' ' :: (List.replicate (deepest + 1) '[' ++ rest)) =
      none := by
  have solid : skipBlank (' ' :: (List.replicate (deepest + 1) '[' ++ rest)) =
      List.replicate (deepest + 1) '[' ++ rest := by
    rw [List.replicate_succ, List.cons_append]
    exact skipBlank_cons (show isBlank '[' = false from rfl)
  obtain ⟨c, tail, shape, start⟩ := bare.exists_cons
  have noHeader : c ≠ '[' := ne_of_isKeyChar start _ rfl
  rw [takeLine?]
  · simp [takeName?_append bare, solid, takeValue?_of_deep]
  · simp [shape, noHeader]
  · simp [shape, noHeader]

/-- A text whose first value is a list that nests too deep is no document. -/
theorem document?_of_deep {text : String} (bare : IsBareKey key)
    (starts : text.toList =
      key.toList ++ ' ' :: '=' :: ' ' :: (List.replicate (deepest + 1) '[' ++ rest)) :
    document? text = none := by
  have unmarked : text.toList.head? ≠ some '\ufeff' := by
    obtain ⟨c, tail, shape, start⟩ := bare.exists_cons
    simpa [starts, shape] using ne_of_isKeyChar start _ rfl
  have noLines : lines? text.toList = none := by
    rw [starts, lines?_eq, skipGap_append bare]
    have fails := takeLine?_of_deep bare rest
    obtain ⟨c, tail, shape, start⟩ := bare.exists_cons
    rw [shape, List.cons_append] at fails ⊢
    simp only [fails]
  rw [document?_of_unmarked unmarked, noLines]
  rfl

end Cadence.Toml
