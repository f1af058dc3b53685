import Custody.Code.Node
import Custody.Code.Path

/-!
# Names and paths

A path that is put together from names with dots between them is read back as these
names, if none of them has a dot in it.
-/

namespace Custody.Code.Path

/-- A name without a dot is one segment of a path. -/
def IsName (name : String) : Prop := '.' ∉ name.toList

instance (name : String) : Decidable (IsName name) :=
  inferInstanceAs (Decidable ('.' ∉ name.toList))

/-- All segments of a path. -/
def segments (qualifier : String) : List String :=
  (parse qualifier).first :: (parse qualifier).rest

/-- Cutting at a dot cuts the parts on both sides. -/
theorem split_append (letters others : List Char) :
    (split (letters ++ '.' :: others)).1 = (split letters).1 ∧
      (split (letters ++ '.' :: others)).2 =
        (split letters).2 ++ (split others).1 :: (split others).2 := by
  induction letters with
  | nil => simp [split]
  | cons letter rest ih =>
      by_cases dot : letter = '.'
      · simp [split, dot, ih.1, ih.2]
      · simp [split, dot, ih.1, ih.2]

theorem split_of_isName {letters : List Char} (whole : '.' ∉ letters) :
    split letters = (letters, []) := by
  induction letters with
  | nil => rfl
  | cons letter rest ih =>
      simp only [List.mem_cons, not_or] at whole
      simp [split, ih whole.2, Ne.symm whole.1]

theorem segments_of_isName {name : String} (whole : IsName name) : segments name = [name] := by
  simp [segments, parse, split_of_isName whole]

theorem segments_intercalate_cons (base : String) (rest : List String) :
    segments (".".intercalate (base :: rest)) = segments base ++ rest.flatMap segments := by
  induction rest generalizing base with
  | nil => simp
  | cons next rest ih =>
      have later := ih next
      obtain ⟨first, others⟩ := split_append base.toList (".".intercalate (next :: rest)).toList
      rw [List.flatMap_cons, ← later, String.intercalate_cons_cons]
      simp only [segments, parse, String.toList_append, List.append_assoc]
      have dot : ".".toList = ['.'] := rfl
      rw [dot, List.singleton_append, first, others]
      simp

/-- A path is not empty if its first name is not. -/
theorem intercalate_ne_empty {base : String} (some : base ≠ "") (rest : List String) :
    ".".intercalate (base :: rest) ≠ "" := by
  cases rest with
  | nil => simpa using some
  | cons next rest => simp [String.intercalate_cons_cons, some]

/-- Names are read back. -/
theorem segments_intercalate {base : String} {rest : List String}
    (names : ∀ name ∈ rest, IsName name) :
    segments (".".intercalate (base :: rest)) = segments base ++ rest := by
  rw [segments_intercalate_cons]
  congr 1
  induction rest with
  | nil => rfl
  | cons name rest ih =>
      rw [List.flatMap_cons, segments_of_isName (names name (.head _)),
        ih fun other member => names other (.tail _ member), List.singleton_append]

/-- The first segment does not depend on what is behind it. -/
theorem first_intercalate (base : String) (rest : List String) :
    (parse (".".intercalate (base :: rest))).first = (parse base).first :=
  (List.cons.inj (segments_intercalate_cons base rest)).1

/-- A member stands behind the segments of its qualifier. -/
theorem segments_dotted {qualifier : String} (some : qualifier ≠ "") (member : String) :
    segments (dotted qualifier member) = segments qualifier ++ segments member := by
  have joined : dotted qualifier member = ".".intercalate [qualifier, member] := by
    simp [dotted, some]
  rw [joined, segments_intercalate_cons]
  simp

theorem first_dotted {qualifier : String} (some : qualifier ≠ "") (member : String) :
    (parse (dotted qualifier member)).first = (parse qualifier).first :=
  (List.cons.inj (segments_dotted some member)).1

/-- A path that starts with a name is not empty. -/
theorem ne_empty_of_first {qualifier : String} (some : (parse qualifier).first ≠ "") :
    qualifier ≠ "" := by
  rintro rfl
  exact some rfl

theorem first_of_isName {name : String} (whole : IsName name) : (parse name).first = name :=
  (List.cons.inj (segments_of_isName whole)).1

end Custody.Code.Path

namespace Custody.Code

/-- The first segment of what a reference refers to. -/
def Reference.first (target : Reference) : String :=
  if target.qualifier = "" then target.member else (Path.parse target.qualifier).first

/-- The first segment of a qualifier; without one, it is the receiver. -/
def qualifierFirst (qualifier : String) : String :=
  if qualifier = "" then this else (Path.parse qualifier).first

end Custody.Code
