import Cadence.Proofs.Datum
import Cadence.Proofs.Toml.Scalar
import Cadence.Toml.Document

/-!
# Records, read back

A record is written line by line: an entry for each named value, and a header for each table.  Its
document is read as the same lines (`lines?_document`), and these make the table that the record
stands for when they are added one by one (`foldlM_entryLines`, `foldlM_tableLines`).

`Record.IsPlain` is all that this takes: keys that need no quotes and differ within a table, and
numbers that are not too large.  Texts may be any (`document?_document`).
-/

namespace Cadence.Toml

variable {text rest : List Char} {key : String} {value : Datum} {line : Line}
  {values : List (String × Scalar)} {entries root : Entries} {opened : List String}

/-! ## Records that can be written -/

/-- The key needs no quotes. -/
def IsBareKey (key : String) : Prop :=
  key.toList ≠ [] ∧ ∀ c ∈ key.toList, isKeyChar c = true

instance : Decidable (IsBareKey key) :=
  decidable_of_iff (key.toList ≠ [] ∧ key.toList.all isKeyChar = true)
    (and_congr_right' List.all_eq_true)

/-- The named values can stand in one table: their keys are bare and differ from each other, and
their numbers are in range. -/
structure ArePlain (values : List (String × Scalar)) : Prop where
  bare : ∀ entry ∈ values, IsBareKey entry.1
  fit : ∀ entry ∈ values, entry.2.Fits
  distinct : (values.map Prod.fst).Nodup

instance : Decidable (ArePlain values) :=
  decidable_of_iff
    ((∀ entry ∈ values, IsBareKey entry.1) ∧ (∀ entry ∈ values, entry.2.Fits) ∧
      (values.map Prod.fst).Nodup)
    ⟨fun ⟨bare, fit, distinct⟩ => ⟨bare, fit, distinct⟩,
      fun plain => ⟨plain.bare, plain.fit, plain.distinct⟩⟩

theorem ArePlain.tail {entry : String × Scalar} (plain : ArePlain (entry :: values)) :
    ArePlain values where
  bare other member := plain.bare other (List.mem_cons_of_mem _ member)
  fit other member := plain.fit other (List.mem_cons_of_mem _ member)
  distinct := (List.nodup_cons.mp plain.distinct).2

/-- The record is one that a document can hold. -/
structure Record.IsPlain (record : Record) : Prop where
  values : ArePlain record.values
  tables : ∀ table ∈ record.tables, IsBareKey table.1 ∧ ArePlain table.2
  distinct : (record.values.map Prod.fst ++ record.tables.map Prod.fst).Nodup

instance (record : Record) : Decidable record.IsPlain :=
  decidable_of_iff
    (ArePlain record.values ∧
      (∀ table ∈ record.tables, IsBareKey table.1 ∧ ArePlain table.2) ∧
      (record.values.map Prod.fst ++ record.tables.map Prod.fst).Nodup)
    ⟨fun ⟨values, tables, distinct⟩ => ⟨values, tables, distinct⟩,
      fun plain => ⟨plain.values, plain.tables, plain.distinct⟩⟩

/-! ## Keys -/

theorem IsBareKey.exists_cons (bare : IsBareKey key) :
    ∃ c tail, key.toList = c :: tail ∧ isKeyChar c = true := by
  obtain ⟨c, tail, shape⟩ := List.exists_cons_of_ne_nil bare.1
  exact ⟨c, tail, shape, bare.2 c (shape ▸ List.mem_cons_self)⟩

theorem ne_of_isKeyChar {c : Char} (plain : isKeyChar c = true) (other : Char)
    (notPlain : isKeyChar other = false) : c ≠ other := by
  rintro rfl
  exact absurd plain (Bool.eq_false_iff.mp notPlain)

theorem skipBlank_cons {c : Char} (solid : isBlank c = false) :
    skipBlank (c :: text) = c :: text :=
  List.dropWhile_cons_of_neg (Bool.eq_false_iff.mp solid)

theorem takeKey?_append (bare : IsBareKey key) (stops : ∀ c ∈ rest.head?, isKeyChar c = false) :
    takeKey? (key.toList ++ rest) = some (key, rest) := by
  obtain ⟨c, tail, shape, start⟩ := bare.exists_cons
  have unquoted : quotedLine? (key.toList ++ rest) = none := by
    rw [shape, List.cons_append, quotedLine?]
    · exact fun _ same => ne_of_isKeyChar start _ rfl (List.cons.inj same).1
    · exact fun _ same => ne_of_isKeyChar start _ rfl (List.cons.inj same).1
  have ended : rest.takeWhile isKeyChar = [] ∧ rest.dropWhile isKeyChar = rest := by
    cases rest with
    | nil => exact ⟨rfl, rfl⟩
    | cons d rest => simp [stops d rfl]
  rw [takeKey?, unquoted, List.takeWhile_append_of_pos bare.2, List.dropWhile_append_of_pos bare.2,
    ended.1, ended.2, List.append_nil]
  simp [bare.1]

theorem takePath?_append (bare : IsBareKey key) (rest : List Char)
    (stops : ∀ c ∈ rest.head?, isKeyChar c = false) (noDot : (skipBlank rest).head? ≠ some '.') :
    takePath? (key.toList ++ rest) = some ([key], skipBlank rest) := by
  have solid : skipBlank (key.toList ++ rest) = key.toList ++ rest := by
    obtain ⟨c, tail, shape, start⟩ := bare.exists_cons
    rw [shape, List.cons_append]
    have noBlank := ne_of_isKeyChar start ' ' rfl
    have noTab := ne_of_isKeyChar start '\t' rfl
    exact skipBlank_cons (by simp [isBlank, noBlank, noTab])
  have keys : takeKeys? (key.toList ++ rest) = some ([key], skipBlank rest) := by
    rw [takeKeys?]
    split
    · next none => simp [solid, takeKey?_append bare stops] at none
    · next found =>
      rw [solid, takeKey?_append bare stops] at found
      cases found
      split
      · next more => simp [more] at noDot
      · rfl
  rw [takePath?, keys]
  rfl

/-! ## Lines -/

theorem takeName?_append (bare : IsBareKey key) (rest : List Char) :
    takeName? (key.toList ++ ' ' :: '=' :: rest) = some ([key], skipBlank rest) := by
  have path := takePath?_append bare (' ' :: '=' :: rest) (by simp [isKeyChar])
    (by simp [skipBlank, isBlank])
  rw [takeName?, path]
  simp [skipBlank, isBlank]

theorem takeLine?_entry (bare : IsBareKey key)
    (reads : takeScalar? (text ++ '\n' :: rest) = some (value, '\n' :: rest)) :
    takeLine? (key.toList ++ ' ' :: '=' :: ' ' :: (text ++ '\n' :: rest)) =
      some (.entry [key] value, '\n' :: rest) := by
  obtain ⟨taken, found, datum, after⟩ := takeValue?_of_takeScalar? reads deepest
  have solid : skipBlank (' ' :: (text ++ '\n' :: rest)) = text ++ '\n' :: rest := by
    obtain ⟨c, tail, shape, starts⟩ := starts_of_takeScalar? reads
    have noBlank : isBlank c = false := by
      rw [← Bool.not_eq_true, isBlank, Bool.or_eq_true, beq_iff_eq, beq_iff_eq]
      rintro (rfl | rfl) <;> contradiction
    rw [shape]
    exact skipBlank_cons noBlank
  obtain ⟨c, tail, shape, start⟩ := bare.exists_cons
  have noHeader : c ≠ '[' := ne_of_isKeyChar start _ rfl
  rw [takeLine?]
  · simp [takeName?_append bare, solid, found, datum, after]
  · simp [shape, noHeader]
  · simp [shape, noHeader]

theorem takeLine?_table (bare : IsBareKey key) (rest : List Char) :
    takeLine? (("[" ++ key ++ "]\n").toList ++ rest) = some (.table [key], '\n' :: rest) := by
  have text : ("[" ++ key ++ "]\n").toList ++ rest =
      '[' :: (key.toList ++ ']' :: '\n' :: rest) := by
    simp
  have path := takePath?_append bare (']' :: '\n' :: rest) (by simp [isKeyChar])
    (by simp [skipBlank, isBlank])
  obtain ⟨c, tail, shape, start⟩ := bare.exists_cons
  have noElement : c ≠ '[' := ne_of_isKeyChar start _ rfl
  rw [text, takeLine?]
  · simp [path, skipBlank, isBlank, takeClosing?]
  · simp [shape, noElement]

/-! ## Documents as lines -/

/-- `lines?` without the facts that show that it ends. -/
theorem lines?_eq (text : List Char) :
    lines? text = match skipGap false text with
      | none => none
      | some [] => some []
      | some start => match takeLine? start with
        | none => none
        | some (line, rest) =>
          if mayEndLine (skipBlank rest) then (lines? rest).map (line :: ·) else none := by
  rw [lines?]
  split
  · next gap => rw [gap]
  · next gap => rw [gap]
  · next gap => split <;> next taken => simp [gap, taken]

theorem lines?_nil : lines? [] = some [] := by
  rw [lines?_eq]
  rfl

theorem lines?_lineEnd (text : List Char) : lines? ('\n' :: text) = lines? text := by
  rw [lines?_eq, lines?_eq text]
  rfl

theorem lines?_of_takeLine? (solid : skipGap false text = some text)
    (reads : takeLine? text = some (line, '\n' :: rest)) :
    lines? text = (lines? rest).map (line :: ·) := by
  cases text with
  | nil => exact absurd (length_lt_of_takeLine? reads) (Nat.not_lt_zero _)
  | cons c text =>
    rw [lines?_eq, solid]
    simp only [reads]
    rw [if_pos, lines?_lineEnd]
    rfl

theorem skipGap_append (bare : IsBareKey key) (rest : List Char) :
    skipGap false (key.toList ++ rest) = some (key.toList ++ rest) := by
  obtain ⟨c, tail, shape, start⟩ := bare.exists_cons
  rw [shape, List.cons_append, skipGap]
  · simp [isBlank, ne_of_isKeyChar start ' ' rfl,
      ne_of_isKeyChar start '\t' rfl, ne_of_isKeyChar start '#' rfl]
  · exact fun _ same => absurd same (ne_of_isKeyChar start _ rfl)
  · exact ne_of_isKeyChar start _ rfl

/-- The lines of named values. -/
def entryLines (values : List (String × Scalar)) : List Line :=
  values.map fun (key, value) => .entry [key] value.datum

/-- The lines of named tables. -/
def tableLines (tables : List (String × List (String × Scalar))) : List Line :=
  tables.flatMap fun (key, values) => .table [key] :: entryLines values

theorem lines?_entry (bare : IsBareKey key)
    (reads : takeScalar? (text ++ '\n' :: rest) = some (value, '\n' :: rest)) :
    lines? (key.toList ++ ' ' :: '=' :: ' ' :: (text ++ '\n' :: rest)) =
      (lines? rest).map (.entry [key] value :: ·) := by
  exact lines?_of_takeLine? (skipGap_append bare _) (takeLine?_entry bare reads)

theorem lines?_header (bare : IsBareKey key) (rest : List Char) :
    lines? (("[" ++ key ++ "]\n").toList ++ rest) = (lines? rest).map (.table [key] :: ·) := by
  refine lines?_of_takeLine? ?_ (takeLine?_table bare rest)
  simp [skipGap, isBlank]

theorem lines?_valueLines (plain : ArePlain values) (rest : List Char) :
    lines? ((Record.valueLines values).toList ++ rest) =
      (lines? rest).map (entryLines values ++ ·) := by
  induction values with
  | nil => simp [Record.valueLines, entryLines]
  | cons entry values ih =>
    have bare := plain.bare entry List.mem_cons_self
    have fits := plain.fit entry List.mem_cons_self
    have text : (Record.valueLines (entry :: values)).toList ++ rest =
        entry.1.toList ++ ' ' :: '=' :: ' ' :: (entry.2.document.toList ++
          '\n' :: ((Record.valueLines values).toList ++ rest)) := by
      simp [Record.valueLines]
    rw [text, lines?_entry bare (takeScalar?_document fits), ih plain.tail, Option.map_map]
    rfl

theorem lines?_tableLines {tables : List (String × List (String × Scalar))}
    (plain : ∀ table ∈ tables, IsBareKey table.1 ∧ ArePlain table.2) :
    lines? (String.join (tables.map fun (key, values) =>
      "\n[" ++ key ++ "]\n" ++ Record.valueLines values)).toList = some (tableLines tables) := by
  induction tables with
  | nil => exact lines?_nil
  | cons table tables ih =>
    obtain ⟨⟨bare, values⟩, later⟩ := List.forall_mem_cons.mp plain
    have text (rest : List Char) :
        ("\n[" ++ table.1 ++ "]\n" ++ Record.valueLines table.2).toList ++ rest =
          '\n' :: (("[" ++ table.1 ++ "]\n").toList ++
            ((Record.valueLines table.2).toList ++ rest)) := by
      simp
    rw [List.map_cons, String.join_cons, String.toList_append, text, lines?_lineEnd,
      lines?_header bare, lines?_valueLines values, ih later]
    simp [tableLines]

theorem lines?_document {record : Record} (plain : record.IsPlain) :
    lines? record.document.toList =
      some (entryLines record.values ++ tableLines record.tables) := by
  rw [Record.document, String.toList_append, lines?_valueLines plain.values,
    lines?_tableLines plain.tables, Option.map_some]

/-! ## Lines as a table -/

theorem lookup_eq_none (fresh : key ∉ entries.map Prod.fst) : entries.lookup key = none := by
  rw [List.lookup_eq_none_iff]
  intro entry member
  rw [bne_iff_ne]
  rintro rfl
  exact fresh (List.mem_map_of_mem member)

theorem lookup_push (fresh : key ∉ entries.map Prod.fst) (node : Node) :
    (entries.push key node).lookup key = some node := by
  simp [Entries.push, List.lookup_append, lookup_eq_none fresh]

theorem replace_push (fresh : key ∉ entries.map Prod.fst) (node new : Node) :
    (entries.push key node).replace key new = entries.push key new := by
  have others : entries.replace key new = entries := by
    refine (List.map_congr_left fun entry member => ?_).trans (List.map_id entries)
    rw [if_neg, id]
    rw [beq_iff_eq]
    rintro rfl
    exact fresh (List.mem_map_of_mem member)
  calc
    (entries.push key node).replace key new
      = entries.replace key new ++ Entries.replace [(key, node)] key new := List.map_append
    _ = entries.push key new := by
      rw [others]
      simp [Entries.replace, Entries.push]

theorem fresh_of_nodup {keys later : List String} (distinct : (keys ++ key :: later).Nodup) :
    key ∉ keys := fun member =>
  (List.nodup_append.mp distinct).2.2 _ member _ List.mem_cons_self rfl

/-- What named values are in a table under construction. -/
def valueNodes (values : List (String × Scalar)) : Entries :=
  values.map fun (key, value) => (key, .value value.datum)

/-- What named tables are in a document under construction. -/
def tableNodes (tables : List (String × List (String × Scalar))) : Entries :=
  tables.map fun (key, values) => (key, .table .declared (valueNodes values))

/-- A change of the opened table is a change of the entries that `fill` puts into the document. -/
def Opens (opened : List String) (fill : Entries → Entries) : Prop :=
  ∀ (change : Entries → Option Entries) (entries : Entries),
    Entries.modify? .implied (fun _ => change) .declared (fill entries) opened =
      (change entries).map fill

theorem opens_root : Opens [] id := fun change entries => by
  rw [Entries.modify?, Option.map_id, id, id]

theorem opens_table (fresh : key ∉ root.map Prod.fst) :
    Opens [key] fun entries => root.push key (.table .declared entries) := fun change entries => by
  rw [Entries.modify?, lookup_push fresh]
  simp [Entries.modify?, replace_push fresh]

theorem add?_entry {fill : Entries → Entries} (opens : Opens opened fill)
    (fresh : key ∉ entries.map Prod.fst) :
    Draft.add? { root := fill entries, opened } (.entry [key] value) =
      some { root := fill (entries.push key (.value value)), opened } := by
  simp [Draft.add?, opens _ _, Entries.addEntry?, Entries.modify?, lookup_eq_none fresh]

theorem add?_table (fresh : key ∉ root.map Prod.fst) :
    Draft.add? { root, opened } (.table [key]) =
      some { root := root.push key (.table .declared []), opened := [key] } := by
  simp [Draft.add?, Entries.addTable?, Entries.modify?, lookup_eq_none fresh]

theorem foldlM_entryLines {fill : Entries → Entries} (opens : Opens opened fill)
    (entries : Entries) (values : List (String × Scalar))
    (distinct : (entries.map Prod.fst ++ values.map Prod.fst).Nodup) :
    (entryLines values).foldlM Draft.add? { root := fill entries, opened } =
      some { root := fill (entries ++ valueNodes values), opened } := by
  induction values generalizing entries with
  | nil => simp [entryLines, valueNodes]
  | cons entry values ih =>
    obtain ⟨key, scalar⟩ := entry
    have fresh := fresh_of_nodup distinct
    have later := ih (entries.push key (.value scalar.datum)) (by
      simpa [Entries.push] using distinct)
    rw [entryLines] at later ⊢
    rw [List.map_cons, List.foldlM_cons, add?_entry opens fresh]
    simpa [Entries.push, valueNodes] using later

theorem foldlM_tableLines (root : Entries) (opened : List String)
    {tables : List (String × List (String × Scalar))}
    (plain : ∀ table ∈ tables, IsBareKey table.1 ∧ ArePlain table.2)
    (distinct : (root.map Prod.fst ++ tables.map Prod.fst).Nodup) :
    ∃ last, (tableLines tables).foldlM Draft.add? { root, opened } =
      some { root := root ++ tableNodes tables, opened := last } := by
  induction tables generalizing root opened with
  | nil => exact ⟨opened, by simp [tableLines, tableNodes]⟩
  | cons table tables ih =>
    obtain ⟨key, values⟩ := table
    obtain ⟨⟨_, plainValues⟩, plainTables⟩ := List.forall_mem_cons.mp plain
    have fresh := fresh_of_nodup distinct
    have inner := foldlM_entryLines (opens_table fresh) [] values
      (by simpa using plainValues.distinct)
    obtain ⟨last, later⟩ := ih (root.push key (.table .declared (valueNodes values))) [key]
      plainTables (by simpa [Entries.push] using distinct)
    refine ⟨last, ?_⟩
    rw [tableLines] at later ⊢
    rw [List.flatMap_cons, List.cons_append, List.foldlM_cons, add?_table fresh,
      Option.bind_eq_bind, Option.bind_some, List.foldlM_append, inner]
    simpa [Entries.push, tableNodes] using later

/-! ## The document -/

theorem fields_valueNodes (values : List (String × Scalar)) :
    fields (valueNodes values) = Record.valueFields values := by
  rw [fields_eq_map, valueNodes, List.map_map]
  rfl

theorem fields_nodes (record : Record) :
    fields (valueNodes record.values ++ tableNodes record.tables) = record.fields := by
  rw [fields_eq_map, List.map_append, ← fields_eq_map, fields_valueNodes, tableNodes, List.map_map,
    Record.fields]
  congr 1
  refine List.map_congr_left fun table _ => ?_
  simp [Node.datum, fields_valueNodes]

theorem document?_of_unmarked {text : String} (unmarked : text.toList.head? ≠ some '\ufeff') :
    document? text =
      ((lines? text.toList).bind (List.foldlM Draft.add? {})).map (fields ·.root) := by
  rw [document?]
  split
  · next marked => simp [marked] at unmarked
  · cases lines? text.toList with
    | none => rfl
    | some lines => exact (Option.map_eq_bind).symm

theorem head?_document {record : Record} (plain : record.IsPlain) :
    record.document.toList.head? ≠ some '\ufeff' := by
  obtain ⟨values, tables⟩ := record
  cases values with
  | nil => cases tables <;> simp [Record.document, Record.valueLines]
  | cons entry values =>
    obtain ⟨c, tail, shape, start⟩ := (plain.values.bare entry List.mem_cons_self).exists_cons
    simpa [Record.document, Record.valueLines, shape] using ne_of_isKeyChar start _ rfl

theorem document?_document {record : Record} (plain : record.IsPlain) :
    document? record.document = some record.fields := by
  have values := foldlM_entryLines opens_root [] record.values
    (by simpa using plain.values.distinct)
  obtain ⟨last, tables⟩ := foldlM_tableLines (valueNodes record.values) []
    plain.tables (by simpa [valueNodes, Function.comp_def] using plain.distinct)
  have read : (entryLines record.values ++ tableLines record.tables).foldlM Draft.add? {} =
      some { root := valueNodes record.values ++ tableNodes record.tables, opened := last } := by
    rw [List.foldlM_append]
    exact (congrArg (· >>= _) values).trans tables
  rw [document?_of_unmarked (head?_document plain), lines?_document plain, Option.bind_some, read,
    Option.map_some, fields_nodes]

theorem fieldsInRange_valueFields (values : List (String × Scalar)) :
    Datum.fieldsInRange (Record.valueFields values) = true := by
  rw [Datum.fieldsInRange_iff, Record.valueFields, List.forall_mem_map]
  rintro ⟨key, scalar⟩ _
  cases scalar <;> rfl

theorem fieldsInRange_fields (record : Record) : Datum.fieldsInRange record.fields = true := by
  rw [Datum.fieldsInRange_iff, Record.fields, List.forall_mem_append, List.forall_mem_map]
  refine ⟨Datum.fieldsInRange_iff.mp (fieldsInRange_valueFields record.values), ?_⟩
  rintro ⟨key, values⟩ _
  exact fieldsInRange_valueFields values

end Cadence.Toml
