import RecordQuery.SortRule

/-!
# The order of records is a total preorder

Every order that records are sorted by is put together from orders of integers, Booleans and texts,
one after the other and turned round. Such orders are transitive, and comparing the other way round
gives the opposite; so a sort rule orders any records, of whatever kinds their values are
(`transCmp_compare`).
-/

namespace RecordQuery

open Json Std

namespace Json

/-- Numbers are sorted by two integers: their place among the doubles and their integer part. -/
instance : TransCmp Number.sortCompare :=
  inferInstanceAs (TransCmp
    (compareLex (compareOn fun n : Number => n.toDouble.place) (compareOn Number.wholePart)))

end Json

instance : TransCmp Instant.compare :=
  inferInstanceAs (TransCmp (compareLex (compareOn Instant.second) (compareOn Instant.nano)))

/-- An order of some things is one of whatever is seen as them. -/
theorem transCmp_on {α β : Type} (cmp : β → β → Ordering) [TransCmp cmp] (f : α → β) :
    TransCmp fun a b => cmp (f a) (f b) where
  eq_swap {a b} := OrientedCmp.eq_swap (a := f a) (b := f b)
  isLE_trans {a b c} := TransCmp.isLE_trans (a := f a) (b := f b) (c := f c)

namespace Json.Value

namespace SortKey

/-- The truth value of a key, and false where it has none; and likewise below. -/
def truth : SortKey → Bool
  | boolean b => b
  | _ => false

def value : SortKey → Number
  | number n => n
  | _ => .real (Double.zero false)

def second : SortKey → Int
  | date t _ => t.second
  | _ => 0

def nano : SortKey → Nat
  | date t _ => t.nano
  | _ => 0

def letters : SortKey → String
  | date _ s | text s | list s | object s => s
  | _ => ""

/-- Keys of one kind agree in all that the kind does not have, so they can be compared by kind and
then by everything. -/
def compareParts : SortKey → SortKey → Ordering :=
  compareLex (compareOn rank) <| compareLex (compareOn truth) <|
    compareLex (fun a b => a.value.sortCompare b.value) <| compareLex (compareOn second) <|
      compareLex (compareOn nano) (compareOn letters)

instance : TransCmp compareParts :=
  have := transCmp_on Number.sortCompare value
  inferInstanceAs (TransCmp (compareLex _ _))

theorem compare_of_rank_ne {a b : SortKey} (h : a.rank ≠ b.rank) :
    a.compare b = Ord.compare a.rank b.rank := by
  cases a <;> cases b <;> first | rfl | exact absurd rfl h

theorem compareParts_of_rank_ne {a b : SortKey} (h : a.rank ≠ b.rank) :
    compareParts a b = Ord.compare a.rank b.rank := by
  have hne : Ord.compare a.rank b.rank ≠ .eq := fun hc => h (LawfulEqOrd.eq_of_compare hc)
  rw [compareParts, compareLex, compareOn]
  revert hne
  cases Ord.compare a.rank b.rank
  · intro _; rfl
  · intro hne; exact absurd rfl hne
  · intro _; rfl

theorem compare_eq_parts (a b : SortKey) : a.compare b = compareParts a b := by
  by_cases h : a.rank = b.rank
  · have hself : ∀ n : Number, n.sortCompare n = .eq := fun _ => ReflCmp.compare_self
    cases a <;> cases b <;> simp [rank] at h <;>
      simp [compare, compareParts, compareLex, compareOn, rank, truth, value, second, nano, letters,
        hself, Instant.compare, Ordering.then_assoc]
  · rw [compare_of_rank_ne h, compareParts_of_rank_ne h]

instance : TransCmp SortKey.compare := by
  rw [show SortKey.compare = compareParts from funext fun a => funext fun b => compare_eq_parts a b]
  infer_instance

end SortKey

instance : TransCmp Value.sortCompare :=
  transCmp_on SortKey.compare sortKey

end Json.Value

instance : TransCmp compareIds where
  eq_swap {a b} := by
    rcases a with _ | v <;> rcases b with _ | w
    · rfl
    · rfl
    · rfl
    · show v.sortCompare w = (w.sortCompare v).swap
      exact OrientedCmp.eq_swap
  isLE_trans {a b c} hab hbc := by
    rcases a with _ | u
    · rcases c with _ | w <;> rfl
    rcases b with _ | v
    · simp [compareIds] at hab
    rcases c with _ | w
    · simp [compareIds] at hbc
    · have huv : (u.sortCompare v).isLE := hab
      have hvw : (v.sortCompare w).isLE := hbc
      show (u.sortCompare w).isLE
      exact TransCmp.isLE_trans huv hvw

namespace Direction

theorem transCmp_apply {β : Type} (cmp : β → β → Ordering) [TransCmp cmp] :
    ∀ dir : Direction, TransCmp fun a b => dir.apply (cmp a b)
  | ascending => inferInstanceAs (TransCmp cmp)
  | descending => by
    have h : (fun a b => descending.apply (cmp a b)) = fun a b => cmp b a :=
      funext fun a => funext fun b => OrientedCmp.eq_swap.symm
    rw [h]
    infer_instance

end Direction

namespace SortRule

variable {α : Type} [Record α]

def directed (rule : SortRule) (a b : α) : Ordering :=
  rule.direction.apply
    ((compareIds (rule.value? (Record.document a)) (rule.value? (Record.document b))).then
      (compareIds (Record.id? a) (Record.id? b)))

/-- Whether a record has no value comes first, whatever the direction. -/
theorem compare_eq (rule : SortRule) (a b : α) :
    rule.compare a b
      = compareLex (compareOn fun record => (rule.value? (Record.document record)).isNone)
          rule.directed a b := by
  rw [compare, compareLex, compareOn, directed]
  rcases rule.value? (Record.document a) with _ | v <;>
    rcases rule.value? (Record.document b) with _ | w <;> rfl

instance transCmp_directed (rule : SortRule) : TransCmp (rule.directed (α := α)) :=
  have := transCmp_on compareIds fun record : α => rule.value? (Record.document record)
  have := transCmp_on compareIds fun record : α => Record.id? record
  Direction.transCmp_apply (compareLex
    (fun a b : α => compareIds (rule.value? (Record.document a)) (rule.value? (Record.document b)))
    fun a b : α => compareIds (Record.id? a) (Record.id? b)) rule.direction

instance transCmp_compare (rule : SortRule) : TransCmp (rule.compare (α := α)) := by
  rw [funext fun a => funext fun b => rule.compare_eq (α := α) a b]
  infer_instance

theorem compare_of_none_of_some {rule : SortRule} {a b : α}
    (ha : rule.value? (Record.document a) = none) (hb : rule.value? (Record.document b) ≠ none) :
    rule.compare a b = .gt := by
  obtain ⟨w, hw⟩ := Option.ne_none_iff_exists'.1 hb
  simp only [compare, ha, hw]

theorem compare_eq_directed {rule : SortRule} {a b : α}
    (h : (rule.value? (Record.document a)).isNone = (rule.value? (Record.document b)).isNone) :
    rule.compare a b = rule.directed a b := by
  have hsame : Ord.compare (rule.value? (Record.document a)).isNone
      (rule.value? (Record.document b)).isNone = .eq := LawfulEqOrd.compare_eq_iff_eq.2 h
  rw [compare_eq, compareLex, compareOn, hsame]
  rfl

/-- A rule is a total preorder of the records that puts those without a value last, and turning its
direction round reverses the order among those with one and among those without. -/
theorem compare_totalPreorder (rule : SortRule) :
    (∀ a b : α, rule.compare a b = (rule.compare b a).swap) ∧
      (∀ a : α, rule.compare a a = .eq) ∧
      (∀ a b c : α, (rule.compare a b).isLE → (rule.compare b c).isLE →
        (rule.compare a c).isLE) ∧
      (∀ a b : α, rule.value? (Record.document a) = none →
        rule.value? (Record.document b) ≠ none → rule.compare a b = .gt) ∧
      ∀ a b : α,
        (rule.value? (Record.document a)).isNone = (rule.value? (Record.document b)).isNone →
          { rule with direction := .descending }.compare a b
            = ({ rule with direction := .ascending }.compare a b).swap := by
  refine ⟨fun a b => OrientedCmp.eq_swap, fun a => ReflCmp.compare_self,
    fun a b c => TransCmp.isLE_trans, fun a b => compare_of_none_of_some, fun a b h => ?_⟩
  have hdown : { rule with direction := .descending }.compare a b
      = { rule with direction := .descending }.directed a b := compare_eq_directed h
  have hup : { rule with direction := .ascending }.compare a b
      = { rule with direction := .ascending }.directed a b := compare_eq_directed h
  rw [hdown, hup]
  rfl

/-- A number, a text and two records without a value, one of them without an identifier either. -/
theorem compare_totalPreorder_mixed_kinds :
    let rule : SortRule := ⟨⟨"n"⟩, none, .descending⟩
    let number : Value := .object [("id", .int 1), ("n", .int 5)]
    let text : Value := .object [("id", .text "x"), ("n", .text "y")]
    let absent : Value := .object [("id", .int 2), ("n", .null)]
    let nameless : Value := .object []
    (rule.compare text number).isLE ∧ (rule.compare number absent).isLE ∧
      (rule.compare text absent).isLE ∧ rule.compare absent number = .gt ∧
      { rule with direction := .descending }.compare absent nameless
        = ({ rule with direction := .ascending }.compare absent nameless).swap := by
  intro rule number text absent nameless
  obtain ⟨-, -, htrans, hlast, hturn⟩ := compare_totalPreorder (α := Value) rule
  have htext : (rule.compare text number).isLE := by decide +kernel
  have hnumber : (rule.compare number absent).isLE := by decide +kernel
  exact ⟨htext, hnumber, htrans text number absent htext hnumber,
    hlast absent number (Option.isNone_iff_eq_none.1 (by decide +kernel))
      (Option.isSome_iff_ne_none.1 (by decide +kernel)),
    hturn absent nameless (by decide +kernel)⟩

end SortRule

end RecordQuery
