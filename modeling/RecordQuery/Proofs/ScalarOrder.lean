import Mathlib.Data.Set.Insert
import Mathlib.Data.String.Basic
import Mathlib.Logic.Relation
import Mathlib.Tactic.Order
import RecordQuery.Proofs.Meaning
import RecordQuery.Proofs.NumberOrder
import RecordQuery.Proofs.SortOrder

/-!
# How far scalars are ordered

Comparing scalars the other way round gives the opposite order (`Value.compare?_swap`). What is less
is not transitive in general, as dates are compared as instants with each other and by letters with
other texts (`Value.compare?_not_trans`). What breaks it is a text that is no date and stands between
two dates by letters. If the first date is the later instant then the three are less than each other
in a circle, and if both are one instant the first is still not less than the last.

Without the former no steps from one scalar to a greater one lead back to where they began. For texts
this is because dates of one instant can be put in order by letters (`Value.Ahead`), and all steps go
along with that order. Steps from numbers to texts and back pass a date, and this is what they keep
(`Value.Precedes`, `Value.Follows`). `Value.compare?_order` has both conditions, with the bounds of
order conditions among the steps.
-/

namespace RecordQuery

open Json Relation

namespace Json.Value

/-! ## The other way round -/

theorem compareInstants?_swap (a b : Value) :
    compareInstants? a b = (compareInstants? b a).map Ordering.swap := by
  unfold compareInstants?
  rcases a.instant? with _ | s <;> rcases b.instant? with _ | t
  · rfl
  · rfl
  · rfl
  · exact congrArg some Std.OrientedCmp.eq_swap

theorem compareInstants?_eq_none {a b : Value} (h : a.instant? = none ∨ b.instant? = none) :
    compareInstants? a b = none := by
  unfold compareInstants?
  rcases h with h | h
  · rw [h]
    rfl
  · rw [h]
    cases a.instant? <;> rfl

theorem compare?_swap (a b : Value) : a.compare? b = (b.compare? a).map Ordering.swap := by
  cases a <;> cases b <;> try rfl
  · exact congrArg some Std.OrientedOrd.eq_swap
  · exact congrArg some (Number.compare_swap _ _)
  · exact compareInstants?_swap _ _
  · exact compareInstants?_swap _ _
  case text.text s t =>
    rw [compare?, compare?, compareInstants?_swap, Std.OrientedOrd.eq_swap (a := s) (b := t)]
    cases compareInstants? (text t) (text s) <;> rfl

/-- One scalar is less than another to the order operators. -/
def Less (a b : Value) : Prop :=
  a.compare? b = some .lt

theorem Less.asymm {a b : Value} (h : Less a b) : ¬ Less b a := by
  intro h'
  rw [Less, compare?_swap, h'] at h
  cases h

/-! ## Texts -/

section Texts

variable {vs ws : Set Value} {s t u : String} {x y : Instant}

theorem less_dates_iff (hs : Instant.ofText? s = some x) (ht : Instant.ofText? t = some y) :
    Less (text s) (text t) ↔ x.place < y.place := by
  rw [Less, compare?, compareInstants?, instant?, instant?, hs, ht, ← Instant.lt_iff_place]
  exact Option.some_inj

theorem less_texts_iff (h : Instant.ofText? s = none ∨ Instant.ofText? t = none) :
    Less (text s) (text t) ↔ s < t := by
  have hnone : compareInstants? (text s) (text t) = none := compareInstants?_eq_none h
  rw [Less, compare?, hnone, Option.none_or, Option.some_inj, compare_lt_iff_lt]

/-- By letters, a text that is no date stands between two dates, which are of these instants. -/
inductive Flanked (vs : Set Value) (x y : Instant) : Prop
  | intro (d s e : String) (hd : text d ∈ vs) (hs : text s ∈ vs) (he : text e ∈ vs)
    (hnone : Instant.ofText? s = none) (hds : d < s) (hse : s < e)
    (hx : Instant.ofText? d = some x) (hy : Instant.ofText? e = some y)

theorem Flanked.mono (hws : ws ⊆ vs) (h : Flanked ws x y) : Flanked vs x y := by
  obtain ⟨d, s, e, hd, hs, he, hnone, hds, hse, hx, hy⟩ := h
  exact ⟨d, s, e, hws hd, hws hs, hws he, hnone, hds, hse, hx, hy⟩

/-- A text that is no date stands between two dates, by letters, only if the instants of the dates
are in that order too. -/
def Untangled (vs : Set Value) : Prop :=
  ∀ x y, Flanked vs x y → x < y

/-- A text that is no date stands between two dates, by letters, only if the first date is not the
later instant. -/
def Uncrossed (vs : Set Value) : Prop :=
  ∀ x y, Flanked vs x y → x ≤ y

theorem Untangled.mono (h : Untangled vs) (hws : ws ⊆ vs) : Untangled ws :=
  fun x y hxy => h x y (hxy.mono hws)

theorem Untangled.uncrossed (h : Untangled vs) : Uncrossed vs := fun x y hxy =>
  Instant.le_iff_place.2 (Instant.lt_iff_place.1 (h x y hxy)).le

/-- One text is less than another, or first by letters and not greater. -/
def Ahead (s t : String) : Prop :=
  Less (text s) (text t) ∨ ¬ Less (text t) (text s) ∧ s < t

theorem ahead_dates_iff (hs : Instant.ofText? s = some x) (ht : Instant.ofText? t = some y) :
    Ahead s t ↔ x.place < y.place ∨ x.place ≤ y.place ∧ s < t := by
  rw [Ahead, less_dates_iff hs ht, less_dates_iff ht hs, not_lt]

theorem ahead_texts_iff (h : Instant.ofText? s = none ∨ Instant.ofText? t = none) :
    Ahead s t ↔ s < t := by
  rw [Ahead, less_texts_iff h, less_texts_iff h.symm]
  exact or_iff_left_of_imp And.right

theorem Ahead.asymm (h : Ahead s t) : ¬ Ahead t s := by
  rintro (hts | ⟨hst, hts⟩)
  · exact h.elim hts.asymm fun h => h.1 hts
  · exact h.elim hst fun h => h.2.asymm hts

theorem ahead_or_ahead_of_ne (h : s ≠ t) : Ahead s t ∨ Ahead t s := by
  rcases lt_or_gt_of_ne h with hst | hts
  · exact (em (Less (text t) (text s))).symm.imp (fun hless => .inr ⟨hless, hst⟩) .inl
  · exact (em (Less (text s) (text t))).imp .inl fun hless => .inr ⟨hless, hts⟩

theorem ne_of_ofText? (hs : Instant.ofText? s = none) (ht : Instant.ofText? t = some x) :
    s ≠ t := by
  rintro rfl
  cases hs.symm.trans ht

/-- The cases are those of which of the three texts are dates: letters decide where no two are,
instants and then letters where all are, and where two are it is the third that must not stand
between them. -/
theorem Uncrossed.ahead_trans (hvs : Uncrossed vs) (hs : text s ∈ vs) (ht : text t ∈ vs)
    (hu : text u ∈ vs) (hst : Ahead s t) (htu : Ahead t u) : Ahead s u := by
  rcases hdt : Instant.ofText? t with _ | y
  · rw [ahead_texts_iff (.inr hdt)] at hst
    rw [ahead_texts_iff (.inl hdt)] at htu
    have hsu : s < u := hst.trans htu
    rcases hds : Instant.ofText? s with _ | x
    · exact (ahead_texts_iff (.inl hds)).2 hsu
    rcases hdu : Instant.ofText? u with _ | z
    · exact (ahead_texts_iff (.inr hdu)).2 hsu
    · have hxz := hvs x z ⟨s, t, u, hs, ht, hu, hdt, hst, htu, hds, hdu⟩
      exact (ahead_dates_iff hds hdu).2 (.inr ⟨Instant.le_iff_place.1 hxz, hsu⟩)
  rcases hds : Instant.ofText? s with _ | x <;> rcases hdu : Instant.ofText? u with _ | z
  · rw [ahead_texts_iff (.inl hds)] at hst ⊢
    rw [ahead_texts_iff (.inr hdu)] at htu
    exact hst.trans htu
  · rw [ahead_texts_iff (.inl hds)] at hst ⊢
    rw [ahead_dates_iff hdt hdu] at htu
    by_contra hsu
    have hus : u < s := lt_of_le_of_ne (le_of_not_gt hsu) (ne_of_ofText? hds hdu).symm
    have hzy := hvs z y ⟨u, s, t, hu, hs, ht, hds, hus, hst, hdu, hdt⟩
    exact htu.elim (Instant.le_iff_place.1 hzy).not_gt fun h => (hus.trans hst).asymm h.2
  · rw [ahead_texts_iff (.inr hdu)] at htu ⊢
    rw [ahead_dates_iff hds hdt] at hst
    by_contra hsu
    have hus : u < s := lt_of_le_of_ne (le_of_not_gt hsu) (ne_of_ofText? hdu hds)
    have hyx := hvs y x ⟨t, u, s, ht, hu, hs, hdu, htu, hus, hdt, hds⟩
    exact hst.elim (Instant.le_iff_place.1 hyx).not_gt fun h => (htu.trans hus).asymm h.2
  · rw [ahead_dates_iff hds hdt] at hst
    rw [ahead_dates_iff hdt hdu] at htu
    rw [ahead_dates_iff hds hdu]
    rcases hst with hxy | ⟨hxy, hst⟩
    · exact .inl (hxy.trans_le (htu.elim le_of_lt And.left))
    · exact htu.imp hxy.trans_lt fun h => ⟨hxy.trans h.1, hst.trans h.2⟩

/-- Of two texts in order, any third is behind the one or ahead of the other. -/
theorem Uncrossed.ahead_or_ahead (hvs : Uncrossed vs) (hs : text s ∈ vs) (ht : text t ∈ vs)
    (hu : text u ∈ vs) (hsu : Ahead s u) : Ahead s t ∨ Ahead t u := by
  rcases eq_or_ne s t with rfl | hne
  · exact .inr hsu
  · exact (ahead_or_ahead_of_ne hne).imp_right (hvs.ahead_trans ht hs hu · hsu)

/-- The first text is ahead of the last, so if it is not less then they are dates of one instant. But
a date between them would make the last one later, and any other text would stand between them. -/
theorem Untangled.less_trans (hvs : Untangled vs) (hs : text s ∈ vs) (ht : text t ∈ vs)
    (hu : text u ∈ vs) (hst : Less (text s) (text t)) (htu : Less (text t) (text u)) :
    Less (text s) (text u) := by
  have hsu : Ahead s u := hvs.uncrossed.ahead_trans hs ht hu (.inl hst) (.inl htu)
  rcases hds : Instant.ofText? s with _ | x
  · exact (less_texts_iff (.inl hds)).2 ((ahead_texts_iff (.inl hds)).1 hsu)
  rcases hdu : Instant.ofText? u with _ | z
  · exact (less_texts_iff (.inr hdu)).2 ((ahead_texts_iff (.inr hdu)).1 hsu)
  rw [less_dates_iff hds hdu]
  rcases hdt : Instant.ofText? t with _ | y
  · rw [less_texts_iff (.inr hdt)] at hst
    rw [less_texts_iff (.inl hdt)] at htu
    exact Instant.lt_iff_place.1 (hvs x z ⟨s, t, u, hs, ht, hu, hdt, hst, htu, hds, hdu⟩)
  · rw [less_dates_iff hds hdt] at hst
    rw [less_dates_iff hdt hdu] at htu
    exact hst.trans htu

end Texts

/-! ## Numbers and texts -/

/-- A number and a text that do not both stand for an instant. -/
def Undated : Value → Value → Prop
  | number m, text t => (number m).instant? = none ∨ (text t).instant? = none
  | text s, number n => (text s).instant? = none ∨ (number n).instant? = none
  | _, _ => False

theorem Undated.compare? {a b : Value} (h : Undated a b) : a.compare? b = none := by
  cases a <;> cases b <;> first | exact h.elim | exact compareInstants?_eq_none h

theorem compareInstants?_eq_lt {a b : Value} : compareInstants? a b = some .lt ↔
    ∃ x y, a.instant? = some x ∧ b.instant? = some y ∧ x.place < y.place := by
  have hplace : ∀ x y : Instant, x.compare y = .lt ↔ x.place < y.place := fun _ _ =>
    Instant.lt_iff_place
  unfold compareInstants?
  rcases a.instant? with _ | x <;> rcases b.instant? with _ | y <;> simp [hplace]

section Sides

variable {vs : Set Value} {m n : Number} {s t u : String}

/-- A number lies before a date that the text is not ahead of. It may lie before all instants, and the
text need not be a date. -/
def Precedes (vs : Set Value) (m : Number) (t : String) : Prop :=
  ∃ d x, text d ∈ vs ∧ Instant.ofText? d = some x ∧ m.place < x.place ∧ ¬ Ahead t d

/-- A number lies after a date that is not ahead of the text. -/
def Follows (vs : Set Value) (n : Number) (s : String) : Prop :=
  ∃ d x, text d ∈ vs ∧ Instant.ofText? d = some x ∧ x.place < n.place ∧ ¬ Ahead d s

theorem precedes_of_less (ht : text t ∈ vs) (h : Less (number m) (text t)) : Precedes vs m t := by
  obtain ⟨x, y, hx, hy, hxy⟩ := compareInstants?_eq_lt.1 h
  exact ⟨t, y, ht, hy, Number.place_of_instant? hx ▸ hxy, fun htt => htt.asymm htt⟩

theorem follows_of_less (hs : text s ∈ vs) (h : Less (text s) (number n)) : Follows vs n s := by
  obtain ⟨x, y, hx, hy, hxy⟩ := compareInstants?_eq_lt.1 h
  exact ⟨s, x, hs, hx, Number.place_of_instant? hy ▸ hxy, fun hss => hss.asymm hss⟩

theorem Precedes.less_or_undated (h : Precedes vs m t) :
    Less (number m) (text t) ∨ Undated (number m) (text t) := by
  obtain ⟨d, x, -, hd, hmx, htd⟩ := h
  rcases hm : (number m).instant? with _ | z
  · exact .inr (.inl hm)
  rcases ht : Instant.ofText? t with _ | y
  · exact .inr (.inr ht)
  · rw [ahead_dates_iff ht hd, not_or] at htd
    have hz := Number.place_of_instant? hm
    exact .inl (compareInstants?_eq_lt.2 ⟨z, y, hm, ht, by omega⟩)

theorem Follows.less_or_undated (h : Follows vs n s) :
    Less (text s) (number n) ∨ Undated (text s) (number n) := by
  obtain ⟨d, y, -, hd, hyn, hds⟩ := h
  rcases hs : Instant.ofText? s with _ | x
  · exact .inr (.inl hs)
  rcases hn : (number n).instant? with _ | z
  · exact .inr (.inr hn)
  · rw [ahead_dates_iff hd hs, not_or] at hds
    have hz := Number.place_of_instant? hn
    exact .inl (compareInstants?_eq_lt.2 ⟨x, z, hs, hn, by omega⟩)

theorem Precedes.of_number (hmn : m.compare n = .lt) (h : Precedes vs n t) : Precedes vs m t := by
  obtain ⟨d, x, hd, hx, hnx, htd⟩ := h
  exact ⟨d, x, hd, hx, (Number.place_le_of_compare_lt hmn).trans_lt hnx, htd⟩

theorem Follows.of_number (h : Follows vs m s) (hmn : m.compare n = .lt) : Follows vs n s := by
  obtain ⟨d, x, hd, hx, hxm, hds⟩ := h
  exact ⟨d, x, hd, hx, hxm.trans_le (Number.place_le_of_compare_lt hmn), hds⟩

theorem Precedes.of_text (hvs : Uncrossed vs) (ht : text t ∈ vs) (hu : text u ∈ vs)
    (h : Precedes vs m t) (htu : Ahead t u) : Precedes vs m u := by
  obtain ⟨d, x, hd, hx, hmx, htd⟩ := h
  exact ⟨d, x, hd, hx, hmx, fun hud => htd (hvs.ahead_trans ht hu hd htu hud)⟩

theorem Follows.of_text (hvs : Uncrossed vs) (hs : text s ∈ vs) (ht : text t ∈ vs)
    (hst : Ahead s t) (h : Follows vs n t) : Follows vs n s := by
  obtain ⟨d, x, hd, hx, hxn, hdt⟩ := h
  exact ⟨d, x, hd, hx, hxn, fun hds => hdt (hvs.ahead_trans hd hs ht hds hst)⟩

/-- The date before the text is not after the date behind it, so they are in order as instants. -/
theorem Precedes.compare (hvs : Uncrossed vs) (ht : text t ∈ vs) (hm : Precedes vs m t)
    (hn : Follows vs n t) : m.compare n = .lt := by
  obtain ⟨d, x, hd, hx, hmx, htd⟩ := hm
  obtain ⟨e, y, he, hy, hyn, het⟩ := hn
  have hed : ¬ Ahead e d := fun h => (hvs.ahead_or_ahead he ht hd h).elim het htd
  rw [ahead_dates_iff hy hx, not_or] at hed
  exact Number.compare_of_place_between hmx (by omega)

theorem Follows.ahead (hvs : Uncrossed vs) (hs : text s ∈ vs) (hu : text u ∈ vs)
    (h : Follows vs n s) (h' : Precedes vs n u) : Ahead s u := by
  obtain ⟨d, x, hd, hx, hxn, hds⟩ := h
  obtain ⟨e, y, he, hy, hny, hue⟩ := h'
  have hde : Ahead d e := (ahead_dates_iff hx hy).2 (.inl (hxn.trans hny))
  have hse : Ahead s e := (hvs.ahead_or_ahead hd hs he hde).resolve_left hds
  exact (hvs.ahead_or_ahead hs hu he hse).resolve_right hue

end Sides

/-! ## Steps to greater scalars -/

/-- What comes of being less step by step. -/
def Below (vs : Set Value) : Value → Value → Prop
  | boolean i, boolean j => Less (boolean i) (boolean j)
  | number m, number n => m.compare n = .lt
  | text s, text t => Ahead s t
  | number m, text t => Precedes vs m t
  | text s, number n => Follows vs n s
  | _, _ => False

section Below

variable {vs : Set Value} {a b c d s e : Value}

theorem below_of_less (ha : a ∈ vs) (hb : b ∈ vs) (h : Less a b) : Below vs a b := by
  cases a <;> cases b <;> try cases h
  case boolean.boolean => exact h
  case number.number => exact Option.some_inj.1 h
  case number.text => exact precedes_of_less hb h
  case text.number => exact follows_of_less ha h
  case text.text => exact .inl h

theorem Below.trans (hvs : Uncrossed vs) (ha : a ∈ vs) (hb : b ∈ vs) (hc : c ∈ vs)
    (hab : Below vs a b) (hbc : Below vs b c) : Below vs a c := by
  cases a <;> cases b <;> (try exact hab.elim) <;> cases c <;> try exact hbc.elim
  case boolean.boolean.boolean i j k =>
    exact Option.some_inj.2 (Std.TransCmp.lt_trans (Option.some_inj.1 hab) (Option.some_inj.1 hbc))
  case number.number.number => exact Number.compare_trans hab hbc
  case number.number.text => exact Precedes.of_number hab hbc
  case number.text.number => exact Precedes.compare hvs hb hab hbc
  case number.text.text => exact Precedes.of_text hvs hb hc hab hbc
  case text.number.number => exact Follows.of_number hab hbc
  case text.number.text => exact Follows.ahead hvs ha hc hab hbc
  case text.text.number => exact Follows.of_text hvs ha hb hab hbc
  case text.text.text => exact hvs.ahead_trans ha hb hc hab hbc

theorem Below.irrefl : ¬ Below vs a a := by
  intro h
  cases a <;> try exact h
  case boolean => exact Less.asymm h h
  case number n =>
    have hnn : Less (number n) (number n) := Option.some_inj.2 h
    exact hnn.asymm hnn
  case text => exact Ahead.asymm h h

/-- What is below is less if it can be compared, except for two texts, where it takes the third. -/
theorem Untangled.less_or_undated (hvs : Untangled vs) (ha : a ∈ vs) (hb : b ∈ vs) (hc : c ∈ vs)
    (hab : Less a b) (hbc : Less b c) : Less a c ∨ Undated a c := by
  have hac : Below vs a c :=
    (below_of_less ha hb hab).trans hvs.uncrossed ha hb hc (below_of_less hb hc hbc)
  cases a <;> cases c <;> try exact hac.elim
  case boolean.boolean => exact .inl hac
  case number.number => exact .inl (Option.some_inj.2 hac)
  case number.text => exact Precedes.less_or_undated hac
  case text.number => exact Follows.less_or_undated hac
  case text.text s u =>
    left
    cases b <;> try cases hab
    case number n =>
      obtain ⟨x, z, hx, hz, hxz⟩ := compareInstants?_eq_lt.1 hab
      obtain ⟨_, y, hz', hy, hzy⟩ := compareInstants?_eq_lt.1 hbc
      obtain rfl := Option.some_inj.1 (hz.symm.trans hz')
      exact (less_dates_iff hx hy).2 (hxz.trans hzy)
    case text t => exact hvs.less_trans ha hb hc hab hbc

/-- Of three scalars where each is less than the next, and the last not less than the first, no others
are less than each other in a row. -/
theorem eq_of_less_of_less (hab : Less a b) (hbc : Less b c) (hca : ¬ Less c a)
    (hd : d ∈ ({a, b, c} : Set Value)) (hs : s ∈ ({a, b, c} : Set Value))
    (he : e ∈ ({a, b, c} : Set Value)) (hds : Less d s) (hse : Less s e) :
    d = a ∧ s = b ∧ e = c := by
  have hirrefl : ∀ {v}, ¬ Less v v := fun h => h.asymm h
  have hfirst : ∀ v ∈ ({a, b, c} : Set Value), ¬ Less v a := by
    rintro v (rfl | rfl | rfl)
    · exact hirrefl
    · exact hab.asymm
    · exact hca
  have hlast : ∀ v ∈ ({a, b, c} : Set Value), ¬ Less c v := by
    rintro v (rfl | rfl | rfl)
    · exact hca
    · exact hbc.asymm
    · exact hirrefl
  obtain rfl : s = b := by
    rcases hs with rfl | rfl | rfl
    · exact absurd hds (hfirst d hd)
    · rfl
    · exact absurd hse (hlast e he)
  refine ⟨?_, rfl, ?_⟩
  · rcases hd with rfl | rfl | rfl
    · rfl
    · exact absurd hds hirrefl
    · exact absurd hds (hlast s hs)
  · rcases he with rfl | rfl | rfl
    · exact absurd hse (hfirst s hs)
    · exact absurd hse hirrefl
    · rfl

/-- Texts that are tangled are less in a row themselves, from one date to the other. -/
theorem untangled_of_less_or_undated (hab : Less a b) (hbc : Less b c)
    (hac : Less a c ∨ Undated a c) : Untangled {a, b, c} := by
  rintro x y ⟨d, s, e, hd, hs, he, hnone, hds, hse, hx, hy⟩
  have hca : ¬ Less c a := by
    rcases hac with hac | hac
    · exact hac.asymm
    · rw [Less, compare?_swap, hac.compare?]
      exact nofun
  obtain ⟨rfl, -, rfl⟩ := eq_of_less_of_less hab hbc hca hd hs he
    ((less_texts_iff (.inr hnone)).2 hds) ((less_texts_iff (.inl hnone)).2 hse)
  rcases hac with hac | hac
  · exact Instant.lt_iff_place.2 ((less_dates_iff hx hy).1 hac)
  · exact hac.elim

/-- One scalar of a set is less than another. -/
def LessIn (vs : Set Value) (a b : Value) : Prop :=
  a ∈ vs ∧ b ∈ vs ∧ Less a b

theorem below_of_transGen (hvs : Uncrossed vs) (h : TransGen (LessIn vs) a b) :
    a ∈ vs ∧ b ∈ vs ∧ Below vs a b := by
  induction h with
  | single h =>
    obtain ⟨ha, hb, hab⟩ := h
    exact ⟨ha, hb, below_of_less ha hb hab⟩
  | tail _ h ih =>
    obtain ⟨hb, hc, hbc⟩ := h
    obtain ⟨ha, -, hab⟩ := ih
    exact ⟨ha, hc, hab.trans hvs ha hb hc (below_of_less hb hc hbc)⟩

theorem uncrossed_iff_acyclic : Uncrossed vs ↔ ∀ v, ¬ TransGen (LessIn vs) v v := by
  constructor
  · intro hvs v h
    exact (below_of_transGen hvs h).2.2.irrefl
  · rintro hacyclic x y ⟨d, s, e, hd, hs, he, hnone, hds, hse, hx, hy⟩
    rw [Instant.le_iff_place]
    by_contra hyx
    have hds' : LessIn vs (text d) (text s) := ⟨hd, hs, (less_texts_iff (.inr hnone)).2 hds⟩
    have hse' : LessIn vs (text s) (text e) := ⟨hs, he, (less_texts_iff (.inl hnone)).2 hse⟩
    have hed : LessIn vs (text e) (text d) := ⟨he, hd, (less_dates_iff hy hx).2 (not_le.1 hyx)⟩
    exact hacyclic (text d) (((TransGen.single hds').tail hse').tail hed)

end Below

end Json.Value

/-! ## Bounds -/

namespace Condition

variable {settings : Settings} {op : OrderOperator} {a b : Value}

/-- A value passes an order condition with a plain operand. -/
def PassesBound (settings : Settings) (op : OrderOperator) (v w : Value) : Prop :=
  ∃ check, (order op (.value w)).compile settings = .ok check ∧ check.passes [v] = true

theorem PassesBound.orderedTo (h : PassesBound settings op a b) :
    (Operand.value b).OrderedTo settings op a := by
  obtain ⟨check, hcheck, hpasses⟩ := h
  rw [passes_order hcheck] at hpasses
  simpa using hpasses

theorem PassesBound.compare? (h : PassesBound settings op a b) (hb : b ≠ .null) :
    ∃ o, a.compare? b = some o ∧ op.Asks o := by
  obtain ⟨o, ho, hasks⟩ := h.orderedTo
  rw [Operand.order?] at ho
  · split_ifs at ho
    exact ⟨o, ho, hasks⟩
  · exact hb

theorem PassesBound.less (h : PassesBound settings .less a b) : a.Less b := by
  have hb : b ≠ .null := by
    rintro rfl
    obtain ⟨_, ho, rfl⟩ := h.orderedTo
    rw [Operand.order?] at ho
    split_ifs at ho <;> cases ho
  obtain ⟨_, ho, rfl⟩ := h.compare? hb
  exact ho

/-- Below a bound that is null there is nothing, and above it everything that is not blank. -/
theorem PassesBound.less_or_null (h : PassesBound settings .greater b a) :
    a.Less b ∨ a = .null ∧ b ≠ .null := by
  rcases eq_or_ne a .null with rfl | ha
  · right
    refine ⟨rfl, ?_⟩
    rintro rfl
    obtain ⟨_, ho, rfl⟩ := h.orderedTo
    cases ho
  · left
    obtain ⟨_, ho, rfl⟩ := h.compare? ha
    rw [Value.Less, Value.compare?_swap, ho]
    rfl

end Condition

namespace Json.Value

variable {settings : Settings} {vs : Set Value} {a b : Value}

/-- Of two scalars of a set, one is less than the other, or passes it as an upper bound, or is passed
by it as a lower bound. -/
def Bounded (settings : Settings) (vs : Set Value) (a b : Value) : Prop :=
  a ∈ vs ∧ b ∈ vs ∧ (Less a b ∨ Condition.PassesBound settings .less a b ∨
    Condition.PassesBound settings .greater b a)

theorem Less.right_ne_null (h : Less a b) : b ≠ null := by
  rintro rfl
  cases a <;> cases h

theorem Bounded.lessIn_or_null (h : Bounded settings vs a b) :
    b ≠ null ∧ (LessIn vs a b ∨ a = null) := by
  obtain ⟨ha, hb, hless | hless | hgreater⟩ := h
  · exact ⟨hless.right_ne_null, .inl ⟨ha, hb, hless⟩⟩
  · exact ⟨hless.less.right_ne_null, .inl ⟨ha, hb, hless.less⟩⟩
  · rcases hgreater.less_or_null with hless | ⟨hnull, hne⟩
    · exact ⟨hless.right_ne_null, .inl ⟨ha, hb, hless⟩⟩
    · exact ⟨hne, .inr hnull⟩

/-- Null is a bound from below only, so it can only be the first of some scalars that are bounds of
each other. -/
theorem lessIn_or_null_of_transGen (h : TransGen (Bounded settings vs) a b) :
    b ≠ null ∧ (TransGen (LessIn vs) a b ∨ a = null) := by
  induction h with
  | single h =>
    obtain ⟨hb, hab⟩ := h.lessIn_or_null
    exact ⟨hb, hab.imp_left .single⟩
  | tail _ h ih =>
    obtain ⟨hb, hab⟩ := ih
    obtain ⟨hc, hbc⟩ := h.lessIn_or_null
    exact ⟨hc, hab.imp_left (.tail · (hbc.resolve_right hb))⟩

theorem acyclic_bounded_iff :
    (∀ v, ¬ TransGen (Bounded settings vs) v v) ↔ ∀ v, ¬ TransGen (LessIn vs) v v := by
  constructor
  · intro hacyclic v h
    exact hacyclic v (TransGen.mono (fun _ _ ⟨ha, hb, hab⟩ => ⟨ha, hb, .inl hab⟩) _ _ h)
  · intro hacyclic v h
    obtain ⟨hne, hsteps | hnull⟩ := lessIn_or_null_of_transGen h
    · exact hacyclic v hsteps
    · exact hne hnull

/-- Two scalars are compared the other way round with the opposite result. Of three, each less than
the next, the first is less than the last, or one of these is a number and the other a text and they
cannot be compared as they do not both stand for an instant, exactly if the three are not tangled. The
scalars of a set are nowhere less than each other in a circle exactly if they are not crossed, and the
same goes for circles with bounds in them. -/
theorem compare?_order (settings : Settings) :
    (∀ a b : Value, a.compare? b = (b.compare? a).map Ordering.swap) ∧
    (∀ a b c : Value, a.compare? b = some .lt → b.compare? c = some .lt →
      (Untangled {a, b, c} ↔ a.compare? c = some .lt ∨ a.compare? c = none ∧ Undated a c)) ∧
    ∀ vs : Set Value,
      (Uncrossed vs ↔ ∀ v, ¬ TransGen (LessIn vs) v v) ∧
      (Uncrossed vs ↔ ∀ v, ¬ TransGen (Bounded settings vs) v v) := by
  refine ⟨compare?_swap, fun a b c hab hbc => ⟨fun hvs => ?_, fun hac => ?_⟩, fun vs => ⟨?_, ?_⟩⟩
  · have hac : Less a c ∨ Undated a c :=
      hvs.less_or_undated (by simp) (by simp) (by simp) hab hbc
    exact hac.imp_right fun h => ⟨h.compare?, h⟩
  · exact untangled_of_less_or_undated hab hbc (hac.imp_right And.right)
  · exact uncrossed_iff_acyclic
  · exact uncrossed_iff_acyclic.trans acyclic_bounded_iff.symm

/-- Two dates in the order of their instants, which is also that of their letters, and a text that is
no date. The number is before both dates, but not to be compared with the text. Then a text between
two dates of one instant, each less than the next, but in no circle. -/
theorem compare?_order_dates_and_text :
    let n := number (.ofInt 0)
    let a := text "2024-01-01"
    let b := text "2024-01-01T12:00:00+02:00"
    let c := text "tomorrow"
    let d := text "2024-01-01T00:00:00Z"
    let s := text "2024-01-01T05x"
    let e := text "2024-01-01T09:00:00+09:00"
    (a.compare? b = some .lt ∧ n.compare? b = some .lt ∧ b.compare? c = some .lt ∧
      Untangled {a, b, c} ∧ a.compare? c = some .lt ∧
      Untangled {n, b, c} ∧ n.compare? c = none) ∧
    (d.compare? s = some .lt ∧ s.compare? e = some .lt ∧ d.compare? e = some .eq ∧
      ¬ Untangled {d, s, e} ∧ Uncrossed {d, s, e} ∧
      ∀ v, ¬ TransGen (Bounded (Settings.ofNow ⟨0, 0, by decide⟩) {d, s, e}) v v) := by
  intro n a b c d s e
  obtain ⟨-, htrans, hcycles⟩ := compare?_order (Settings.ofNow ⟨0, 0, by decide⟩)
  constructor
  · have hab : a.compare? b = some .lt := by decide +kernel
    have hnb : n.compare? b = some .lt := by decide +kernel
    have hbc : b.compare? c = some .lt := by decide +kernel
    have hvs : Untangled {n, a, b, c} := by
      rintro x y ⟨d, s, e, -, hs, he, hnone, -, hse, -, -⟩
      simp only [n, a, b, c, Set.mem_insert_iff, Set.mem_singleton_iff, reduceCtorEq, false_or,
        text.injEq] at hs he
      rcases hs with rfl | rfl | rfl
      · exact absurd hnone (by decide +kernel)
      · exact absurd hnone (by decide +kernel)
      · rcases he with rfl | rfl | rfl <;> exact absurd hse (by decide)
    have habc : Untangled {a, b, c} := hvs.mono (Set.subset_insert n _)
    have hnbc : Untangled {n, b, c} := hvs.mono (Set.insert_subset_insert (Set.subset_insert a _))
    refine ⟨hab, hnb, hbc, habc, ?_, hnbc, ?_⟩
    · rcases (htrans a b c hab hbc).1 habc with hac | ⟨-, hundated⟩
      · exact hac
      · exact hundated.elim
    · rcases (htrans n b c hnb hbc).1 hnbc with hnc | ⟨hnc, -⟩
      · exact absurd hnc (by decide +kernel)
      · exact hnc
  · have hds : d.compare? s = some .lt := by decide +kernel
    have hse : s.compare? e = some .lt := by decide +kernel
    have hde : d.compare? e = some .eq := by decide +kernel
    have hlevel : ∀ t x, text t ∈ ({d, s, e} : Set Value) → Instant.ofText? t = some x →
        x.second = 1704067200 ∧ x.nano = 0 := by
      intro t x ht hx
      simp only [d, s, e, Set.mem_insert_iff, Set.mem_singleton_iff, text.injEq] at ht
      have h : (Instant.ofText? t).all (fun x => x.second = 1704067200 ∧ x.nano = 0) := by
        rcases ht with rfl | rfl | rfl <;> decide +kernel
      simpa [hx] using h
    have hvs : Uncrossed {d, s, e} := by
      rintro x y ⟨t, -, u, ht, -, hu, -, -, -, hx, hy⟩
      have := hlevel t x ht hx
      have := hlevel u y hu hy
      rw [Instant.le_iff]
      omega
    refine ⟨hds, hse, hde, fun h => ?_, hvs, (hcycles {d, s, e}).2.1 hvs⟩
    rcases (htrans d s e hds hse).1 h with hde' | ⟨hde', -⟩ <;> cases hde.symm.trans hde'

/-- Among two dates in different zones and a text that is no date each can be less than the next. A
number can be less than a date and the date less than a text, or a number beyond all instants less
than another and this less than a date, where the first and the last are not to be compared. -/
theorem compare?_not_trans :
    let a := text "2024-01-02T00:00:00+05:00"
    let b := text "2024-01-01T23:00:00Z"
    let c := text "2024-01-01x"
    let n := number (.ofInt 0)
    let m := number (.ofInt (-10000000000000000))
    (a.compare? b = some .lt ∧ b.compare? c = some .lt ∧ c.compare? a = some .lt) ∧
    (n.compare? b = some .lt ∧ b.compare? c = some .lt ∧ n.compare? c = none) ∧
    (m.compare? n = some .lt ∧ n.compare? b = some .lt ∧ m.compare? b = none) := by
  decide +kernel

end Json.Value

end RecordQuery
