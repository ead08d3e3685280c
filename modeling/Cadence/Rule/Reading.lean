import Cadence.Rule.Fault

/-!
# Readings

A reading is a value together with the first fault met on the way to it.  Every reader supplies a
value even for a faulty text, so one pass serves both policies: a lenient caller takes the value and
a strict caller takes the first fault.  On a faultless text the two agree, since both settle the
same reading.
-/

namespace Cadence

/-- How a caller treats a faulty text. -/
inductive Policy where
  /-- Take the value that stands in for each faulty part. -/
  | lenient
  /-- Refuse the text at its first fault. -/
  | strict
deriving DecidableEq, Repr

namespace Policy

def all : List Policy := [.lenient, .strict]

def name : Policy → String
  | .lenient => "lenient"
  | .strict => "strict"

def ofName? (name : String) : Option Policy := all.find? (·.name == name)

@[simp] theorem ofName?_name (policy : Policy) : ofName? policy.name = some policy := by
  cases policy <;> decide

end Policy

/-- A value with the first fault met in reading it, if there was one. -/
structure Reading (α : Type) where
  value : α
  fault? : Option Fault

namespace Reading

variable {α β : Type}

/-- A value that stands in for a faulty part. -/
def standIn (fault : Fault) (value : α) : Reading α := ⟨value, some fault⟩

/-- The value that was found, or the one that stands in for it. -/
def orStandIn (found : Option α) (fault : Fault) (value : α) : Reading α :=
  match found with
  | some value => ⟨value, none⟩
  | none => .standIn fault value

/-- Notes a fault if `condition` holds. -/
def note (condition : Prop) [Decidable condition] (fault : Fault) : Reading Unit :=
  if condition then .standIn fault () else ⟨(), none⟩

instance : Monad Reading where
  pure value := ⟨value, none⟩
  bind first next :=
    let second := next first.value
    ⟨second.value, first.fault?.or second.fault?⟩

@[simp] theorem value_pure (a : α) : (pure a : Reading α).value = a := rfl

@[simp] theorem fault?_pure (a : α) : (pure a : Reading α).fault? = none := rfl

@[simp] theorem value_bind (first : Reading α) (next : α → Reading β) :
    (first >>= next).value = (next first.value).value := rfl

@[simp] theorem fault?_bind (first : Reading α) (next : α → Reading β) :
    (first >>= next).fault? = first.fault?.or (next first.value).fault? := rfl

@[simp] theorem pure_bind (a : α) (next : α → Reading β) : pure a >>= next = next a := rfl

@[simp] theorem fault?_standIn (fault : Fault) (a : α) :
    (standIn fault a).fault? = some fault := rfl

@[simp] theorem note_of_not {condition : Prop} [Decidable condition] (fault : Fault)
    (absent : ¬ condition) : note condition fault = pure () :=
  if_neg absent

@[simp] theorem note_of {condition : Prop} [Decidable condition] (fault : Fault)
    (holds : condition) : note condition fault = standIn fault () :=
  if_pos holds

/-- What the caller gets from a reading of `input` under its policy. -/
def settle (policy : Policy) (input : String) (reading : Reading α) : Except Malformed α :=
  match policy, reading.fault? with
  | .strict, some fault => .error ⟨fault, input⟩
  | _, _ => .ok reading.value

theorem eq_pure_of_fault?_eq_none {reading : Reading α} (faultless : reading.fault? = none) :
    reading = pure reading.value := by
  cases reading
  cases faultless
  rfl

theorem settle_strict_eq_ok_iff {input : String} {reading : Reading α} {a : α} :
    reading.settle .strict input = .ok a ↔ reading = pure a := by
  cases found : reading.fault? with
  | none =>
    rw [eq_pure_of_fault?_eq_none found]
    simp [settle, pure]
  | some fault =>
    simp only [settle, found, reduceCtorEq, false_iff]
    rintro rfl
    contradiction

theorem settle_strict_eq_error_iff {input : String} {reading : Reading α} {error : Malformed} :
    reading.settle .strict input = .error error ↔
      error.input = input ∧ reading.fault? = some error.fault := by
  obtain ⟨fault, text⟩ := error
  cases found : reading.fault? with
  | none => simp [settle, found]
  | some first =>
    simp only [settle, found, Except.error.injEq, Malformed.mk.injEq, Option.some.injEq]
    rw [and_comm, eq_comm (a := input)]

end Reading

end Cadence
