import Std.Data.HashMap

namespace Bracketing.Evaluation

structure Span where
  offset : Nat
  length : Nat
  deriving DecidableEq, Hashable

/-- Beside the values stands which spans were filled in, the latest first. -/
structure Cache where
  values : Std.HashMap Span (List Float)
  filled : List Span

namespace Cache

def empty : Cache := ⟨∅, []⟩

def find? (cache : Cache) (span : Span) : Option (List Float) := cache.values[span]?

def insert (cache : Cache) (span : Span) (values : List Float) : Cache :=
  ⟨cache.values.insert span values, span :: cache.filled⟩

@[simp] theorem find?_empty (span : Span) : empty.find? span = none := by
  simp [empty, find?]

theorem find?_insert (cache : Cache) (s t : Span) (values : List Float) :
    (cache.insert s values).find? t = if s = t then some values else cache.find? t := by
  simp [insert, find?, Std.HashMap.getElem?_insert]

@[simp] theorem find?_insert_self (cache : Cache) (s : Span) (values : List Float) :
    (cache.insert s values).find? s = some values := by
  simp [find?_insert]

@[simp] theorem filled_insert (cache : Cache) (s : Span) (values : List Float) :
    (cache.insert s values).filled = s :: cache.filled := rfl

end Cache

end Bracketing.Evaluation
