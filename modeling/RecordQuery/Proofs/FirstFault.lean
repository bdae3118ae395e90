import RecordQuery.Proofs.Compiling

/-!
# The fault of a result

A description is compiled part by part, and the first part with a fault ends it. So the fault of a
list is the first that its elements have (`faultOf?_mapM`).
-/

namespace RecordQuery

variable {ε β γ δ : Type}

theorem findSome?_cons_eq_or (f : β → Option γ) (b : β) (bs : List β) :
    (b :: bs).findSome? f = (f b).or (bs.findSome? f) := by
  rw [List.findSome?_cons]
  cases f b <;> rfl

/-- The first image is that of the first element which has one. -/
theorem findSome?_eq_some_iff_find? {f : β → Option γ} {c : γ} : ∀ {bs : List β},
    bs.findSome? f = some c ↔ ∃ b, bs.find? (fun b => (f b).isSome) = some b ∧ f b = some c
  | [] => by simp
  | b :: bs => by
    rw [findSome?_cons_eq_or, List.find?_cons]
    cases hb : f b with
    | none => exact findSome?_eq_some_iff_find?
    | some d => simp [hb]

/-- The fault that a result is, if it is none of the values asked for. -/
def faultOf? : Except ε β → Option ε
  | .ok _ => none
  | .error e => some e

theorem faultOf?_eq_some {x : Except ε β} {e : ε} : faultOf? x = some e ↔ x = .error e := by
  cases x <;> simp [faultOf?]

theorem faultOf?_eq_none {x : Except ε β} : faultOf? x = none ↔ ∃ b, x = .ok b := by
  cases x <;> simp [faultOf?]

/-- What cannot fail after a result adds no fault to it. -/
theorem faultOf?_bind {f : β → Except ε γ} (h : ∀ b, faultOf? (f b) = none) (x : Except ε β) :
    faultOf? (x >>= f) = faultOf? x := by
  cases x with
  | error e => rfl
  | ok b => exact h b

theorem faultOf?_bind_pure (f : β → γ) (x : Except ε β) :
    faultOf? (do return f (← x)) = faultOf? x :=
  faultOf?_bind (fun _ => rfl) x

theorem faultOf?_bind_bind_pure (f : β → γ → δ) (x : Except ε β) (y : Except ε γ) :
    faultOf? (do let b ← x; let c ← y; return f b c) = (faultOf? x).or (faultOf? y) := by
  cases x <;> cases y <;> rfl

theorem faultOf?_mapM (f : β → Except ε γ) : ∀ bs : List β,
    faultOf? (bs.mapM f) = bs.findSome? fun b => faultOf? (f b)
  | [] => rfl
  | b :: bs => by
    rw [List.mapM_cons, faultOf?_bind_bind_pure, faultOf?_mapM f bs, findSome?_cons_eq_or]

theorem faultOf?_forM (f : β → Except ε PUnit) : ∀ bs : List β,
    faultOf? (bs.forM f) = bs.findSome? fun b => faultOf? (f b)
  | [] => rfl
  | b :: bs => by
    rw [List.forM, findSome?_cons_eq_or, ← faultOf?_forM f bs]
    cases f b <;> rfl

end RecordQuery
