import Custody.Suppression.File
import Mathlib.Data.List.Nodup

/-!
# Directives at the end of a line

A directive at or after a position and on its line suppresses the position, if the search
finds it.  The search finds the first group of comments that starts at or after the position
and looks at the first comment of that group.  So a directive counts that opens its group, as
long as no other group starts between; behind another comment it is overlooked.
-/

namespace Custody.Suppression.CheckedFile

open Source

variable {checked : CheckedFile} {groups : List (List Comment)} {comment : Comment} {pos : Int}

/-- Groups have comments, and stand in the order of their positions. -/
structure Arranged (groups : List (List Comment)) : Prop where
  inhabited : ∀ group ∈ groups, group ≠ []
  ascending : groups.Pairwise fun left right => groupPos left < groupPos right

/-- A comment of the file is a directive and starts at or after a position, on its line. -/
structure Trails (checked : CheckedFile) (pos : Int) (comment : Comment) : Prop where
  listed : ∃ group ∈ checked.file.comments, comment ∈ group
  after : pos ≤ comment.pos
  beside : checked.line comment.pos = checked.line pos
  directive : isDirective comment.text = true

/-- A comment opens a group, and of the groups that start at or after a position none starts
before it. -/
structure Opens (checked : CheckedFile) (pos : Int) (comment : Comment) : Prop where
  opens : ∃ group ∈ checked.file.comments, group.head? = some comment
  after : pos ≤ comment.pos
  first : ∀ group ∈ checked.file.comments, pos ≤ groupPos group → comment.pos ≤ groupPos group

/-! ## The search -/

theorem groupPos_of_head? {group : List Comment} (head : group.head? = some comment) :
    groupPos group = comment.pos := by
  cases group with
  | nil => cases head
  | cons first rest => cases head; rfl

/-- In ascending order a group stands behind all that start before it. -/
theorem groupPos_at (ascending : groups.Pairwise fun left right => groupPos left < groupPos right)
    {place : Nat} (inside : place < groups.length) :
    (∀ group ∈ groups.take place, groupPos group < groupPos groups[place]) ∧
      ∀ group ∈ groups.drop (place + 1), groupPos groups[place] < groupPos group := by
  rw [← List.take_append_drop place groups, List.drop_eq_getElem_cons inside,
    List.pairwise_append] at ascending
  obtain ⟨_, rest, apart⟩ := ascending
  exact ⟨fun group member => apart group member _ (.head _), (List.pairwise_cons.1 rest).1⟩

/-- If the groups before one place start before the position and those from another place on do
not, the search between the places finds where this changes. -/
theorem searchGroup_spec (ascending : groups.Pairwise fun left right => groupPos left < groupPos right)
    (pos : Int) (low high : Nat) (within : high ≤ groups.length)
    (below : ∀ group ∈ groups.take low, groupPos group < pos)
    (above : ∀ group ∈ groups.drop high, pos ≤ groupPos group) :
    (∀ group ∈ groups.take (searchGroup groups pos low high), groupPos group < pos) ∧
      ∀ group ∈ groups.drop (searchGroup groups pos low high), pos ≤ groupPos group := by
  fun_induction searchGroup groups pos low high with
  | case1 low high less middle early ih =>
      have inside : middle < groups.length := by omega
      obtain ⟨before, _⟩ := groupPos_at ascending inside
      have here : groupPos groups[middle] < pos := by simpa [inside] using early
      refine ih within (fun group member => ?_) above
      rw [List.take_succ_eq_append_getElem inside, List.mem_append, List.mem_singleton] at member
      rcases member with earlier | rfl
      · exact Int.lt_trans (before group earlier) here
      · exact here
  | case2 low high less middle late ih =>
      have inside : middle < groups.length := by omega
      obtain ⟨_, behind⟩ := groupPos_at ascending inside
      have here : pos ≤ groupPos groups[middle] := by simpa [inside] using late
      refine ih (by omega) below fun group member => ?_
      rw [List.drop_eq_getElem_cons inside, List.mem_cons] at member
      rcases member with rfl | later
      · exact here
      · exact Int.le_of_lt (Int.lt_of_le_of_lt here (behind group later))
  | case3 low high done =>
      refine ⟨below, fun group member => above group ?_⟩
      exact List.drop_subset_drop_left groups (Nat.le_of_not_lt done) member

/-- The search finds the first group that starts at or after the position. -/
theorem getElem?_searchGroup (arranged : Arranged groups) (pos : Int) :
    groups[searchGroup groups pos 0 groups.length]? = groups.find? (pos ≤ groupPos ·) := by
  obtain ⟨below, above⟩ := searchGroup_spec arranged.ascending pos 0 groups.length (Nat.le_refl _)
    (fun _ member => by cases member) (fun _ member => by simp at member)
  let place := searchGroup groups pos 0 groups.length
  have passed : (groups.take place).find? (pos ≤ groupPos ·) = none := by
    refine List.find?_eq_none.2 fun group member => ?_
    simpa using below group member
  have next : (groups.drop place).find? (pos ≤ groupPos ·) = (groups.drop place).head? := by
    cases left : groups.drop place with
    | nil => rfl
    | cons group rest =>
        have here := above group (by rw [left]; exact .head _)
        simp [here]
  calc groups[place]?
      = (groups.drop place).head? := List.head?_drop.symm
    _ = (groups.take place ++ groups.drop place).find? (pos ≤ groupPos ·) := by
        rw [List.find?_append, passed, next, Option.none_or]
    _ = groups.find? (pos ≤ groupPos ·) := by rw [List.take_append_drop]

/-- The first of the groups that start at or after the position is the least of them. -/
theorem find?_groupPos_iff (arranged : Arranged groups) {group : List Comment} :
    groups.find? (pos ≤ groupPos ·) = some group ↔
      group ∈ groups ∧ pos ≤ groupPos group ∧
        ∀ other ∈ groups, pos ≤ groupPos other → groupPos group ≤ groupPos other := by
  have least : ∀ {group}, groups.find? (pos ≤ groupPos ·) = some group →
      group ∈ groups ∧ pos ≤ groupPos group ∧
        ∀ other ∈ groups, pos ≤ groupPos other → groupPos group ≤ groupPos other := by
    intro group found
    obtain ⟨late, before, behind, split, early⟩ := List.find?_eq_some_iff_append.1 found
    refine ⟨List.mem_of_find?_eq_some found, by simpa using late, fun other member after => ?_⟩
    have ascending := arranged.ascending
    rw [split, List.pairwise_append] at ascending
    rw [split, List.mem_append, List.mem_cons] at member
    rcases member with passed | rfl | later
    · have missed := early other passed
      simp [after] at missed
    · exact Int.le_refl _
    · exact Int.le_of_lt ((List.pairwise_cons.1 ascending.2.1).1 other later)
  refine ⟨least, ?_⟩
  rintro ⟨member, late, first⟩
  have present : (groups.find? (pos ≤ groupPos ·)).isSome = true :=
    List.find?_isSome.2 ⟨group, member, by simpa using late⟩
  obtain ⟨other, found⟩ := Option.isSome_iff_exists.1 present
  obtain ⟨listed, after, least⟩ := least found
  have level : groupPos group = groupPos other :=
    Int.le_antisymm (first other listed after) (least group member late)
  have distinct : (groups.map groupPos).Nodup :=
    List.pairwise_map.2 (arranged.ascending.imp Int.ne_of_lt)
  rw [List.inj_on_of_nodup_map distinct member listed level]
  exact found

/-- The comment that the search looks at opens the next group. -/
theorem opens_iff (arranged : Arranged checked.file.comments) :
    checked.Opens pos comment ↔
      (checked.file.comments.find? (pos ≤ groupPos ·)).bind List.head? = some comment := by
  rw [Option.bind_eq_some_iff]
  constructor
  · rintro ⟨⟨group, member, head⟩, after, first⟩
    rw [← groupPos_of_head? head] at after first
    exact ⟨group, (find?_groupPos_iff arranged).2 ⟨member, after, first⟩, head⟩
  · rintro ⟨group, found, head⟩
    obtain ⟨member, after, first⟩ := (find?_groupPos_iff arranged).1 found
    rw [groupPos_of_head? head] at after first
    exact ⟨⟨group, member, head⟩, after, first⟩

/-- A position is suppressed by its line exactly if a directive that trails it opens the next
group. -/
theorem hasLineDirective_iff (arranged : Arranged checked.file.comments) :
    checked.hasLineDirective pos = true ↔
      ∃ comment, checked.Trails pos comment ∧ checked.Opens pos comment := by
  unfold hasLineDirective
  simp only [getElem?_searchGroup arranged pos]
  cases found : (checked.file.comments.find? (pos ≤ groupPos ·)).bind List.head? with
  | none =>
      simp only [Bool.false_eq_true, false_iff, not_exists, not_and]
      intro comment _ opens
      rw [opens_iff arranged, found] at opens
      cases opens
  | some comment =>
      have opens := (opens_iff arranged).2 found
      simp only [Bool.and_eq_true, beq_iff_eq]
      constructor
      · rintro ⟨beside, directive⟩
        obtain ⟨group, member, head⟩ := opens.opens
        exact ⟨comment, ⟨⟨group, member, List.mem_of_head? head⟩, opens.after, beside, directive⟩, opens⟩
      · rintro ⟨other, trails, also⟩
        rw [opens_iff arranged, found] at also
        cases also
        exact ⟨trails.beside, trails.directive⟩

/-- A position is suppressed by its line exactly if a directive trails it. -/
def Notices (checked : CheckedFile) (pos : Int) : Prop :=
  checked.hasLineDirective pos = true ↔ ∃ comment, checked.Trails pos comment

/-- Directives trail the position, but none of them opens the next group: each stands behind
another comment of its group, or another group starts between. -/
def Overlooks (checked : CheckedFile) (pos : Int) : Prop :=
  (∃ comment, checked.Trails pos comment) ∧
    ∀ comment, checked.Trails pos comment → ¬checked.Opens pos comment

/-- A directive that trails a position suppresses it if it opens the next group, and nothing
else does.  So all directives are noticed but those that stand behind other comments. -/
theorem notices_unless_overlooks (checked : CheckedFile)
    (arranged : Arranged checked.file.comments) (pos : Int) :
    (checked.hasLineDirective pos = true ↔
        ∃ comment, checked.Trails pos comment ∧ checked.Opens pos comment) ∧
      (checked.Notices pos ↔ ¬checked.Overlooks pos) := by
  refine ⟨hasLineDirective_iff arranged, ?_⟩
  rw [Notices, hasLineDirective_iff arranged]
  constructor
  · rintro noticed ⟨trailed, closed⟩
    obtain ⟨comment, trails, opens⟩ := noticed.2 trailed
    exact closed comment trails opens
  · intro seen
    refine ⟨fun ⟨comment, trails, _⟩ => ⟨comment, trails⟩, fun trailed => ?_⟩
    by_contra none
    exact seen ⟨trailed, fun comment trails opens => none ⟨comment, trails, opens⟩⟩

/-- The variables `a` and `b` are declared on a line each that ends in a directive.  Before it
stands another comment, in the same group on the first line and in one of its own on the
second. -/
def crowded : CheckedFile where
  file :=
    { base := 1
      size := 93
      lines := [0, 10, 11, 50]
      packagePos := 1
      packageName := "p"
      packageNamePos := 9
      comments :=
        [[⟨22, "/* one */"⟩, ⟨32, "//nolint:argeffect"⟩], [⟨62, "/* two */"⟩],
          [⟨75, "//nolint:argeffect"⟩]]
      doc := none
      detached := false
      decls := [] }
  generated := false
  suppressed := false
  functions := []

theorem arranged_crowded : Arranged crowded.file.comments where
  inhabited := by decide
  ascending := by decide

/-- Past the other comment the directive is noticed. -/
theorem notices_unless_overlooks_crowded :
    Arranged crowded.file.comments ∧ crowded.hasLineDirective 72 = true ∧ crowded.Notices 72 ∧
      ¬crowded.Overlooks 72 := by
  have trails : crowded.Trails 72 ⟨75, "//nolint:argeffect"⟩ :=
    ⟨⟨_, .tail _ (.tail _ (.head _)), by decide⟩, by decide, by decide +kernel, by decide +kernel⟩
  have opens : crowded.Opens 72 ⟨75, "//nolint:argeffect"⟩ :=
    ⟨⟨_, .tail _ (.tail _ (.head _)), by decide⟩, by decide, by decide⟩
  have seen : ¬crowded.Overlooks 72 := fun overlooks => overlooks.2 _ trails opens
  obtain ⟨suppressed, noticed⟩ := notices_unless_overlooks crowded arranged_crowded 72
  exact ⟨arranged_crowded, suppressed.2 ⟨_, trails, opens⟩, noticed.2 seen, seen⟩

/-- At the names of the two variables it is overlooked. -/
theorem not_notices_crowded :
    Arranged crowded.file.comments ∧
      (crowded.contains 16 = true ∧ ¬crowded.Notices 16) ∧
      (crowded.contains 55 = true ∧ ¬crowded.Notices 55) := by
  have first : crowded.Trails 16 ⟨32, "//nolint:argeffect"⟩ :=
    ⟨⟨_, .head _, by decide⟩, by decide, by decide +kernel, by decide +kernel⟩
  have second : crowded.Trails 55 ⟨75, "//nolint:argeffect"⟩ :=
    ⟨⟨_, .tail _ (.tail _ (.head _)), by decide⟩, by decide, by decide +kernel, by decide +kernel⟩
  have missed : crowded.hasLineDirective 16 = false ∧ crowded.hasLineDirective 55 = false := by
    decide +kernel
  refine ⟨arranged_crowded, ⟨by decide, fun notices => ?_⟩, ⟨by decide, fun notices => ?_⟩⟩
  · rw [Notices, missed.1] at notices
    cases notices.2 ⟨_, first⟩
  · rw [Notices, missed.2] at notices
    cases notices.2 ⟨_, second⟩

end Custody.Suppression.CheckedFile
