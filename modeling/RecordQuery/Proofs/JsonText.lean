import RecordQuery.Json.Printer
import RecordQuery.Json.Scalar
import RecordQuery.Proofs.NumberText

/-!
# The text of a value

Reading a string that was printed gives its characters back (`Tree.readPieces?_quoted`), the text of
a number ends where a character comes that no number has, and lists and objects end where their
brackets close. So the text of a value is the beginning of no other text of a value
(`Value.chars_append_inj`), and the text of no other value (`Value.toText_injective`).
-/

namespace RecordQuery.Json

open Decimal.Numeral (isNumeralChar)

/-! ## Strings -/

namespace Tree

theorem unitValue?_hexDigits {n : Nat} (h : n < 0x20) :
    unitValue? '0' '0' (hexDigit (n / 16)) (hexDigit n) = some n := by
  revert n
  decide

/-- Whether a piece stands for a character. -/
def Piece.IsChar (piece : Piece) (c : Char) : Prop :=
  ∀ pieces, joinPieces? (piece :: pieces) = (joinPieces? pieces).map (c :: ·)

theorem Piece.IsChar.char (c : Char) : (Piece.char c).IsChar c :=
  fun _ => rfl

theorem Piece.IsChar.unit {c : Char} (h : c.toNat < 0x20) : (Piece.unit c.toNat).IsChar c := by
  intro pieces
  have hhigh : isHighSurrogate c.toNat = false := by
    simp only [isHighSurrogate, Bool.and_eq_false_iff, decide_eq_false_iff_not]
    omega
  have hlow : isLowSurrogate c.toNat = false := by
    simp only [isLowSurrogate, Bool.and_eq_false_iff, decide_eq_false_iff_not]
    omega
  conv_lhs => unfold joinPieces?
  simp only [hhigh, hlow, Char.ofNat_toNat, Bool.false_eq_true, if_false]

section Pieces

variable (rest : List Char)

theorem readPieces?_escaped {e c : Char} (hu : e ≠ 'u') (h : unescape? e = some c) :
    readPieces? ('\\' :: e :: rest)
      = (readPieces? rest).map fun read => (.char c :: read.1, read.2) := by
  rw [readPieces?, h]
  · cases readPieces? rest <;> rfl
  · exact fun _ _ _ _ _ he => absurd he hu

theorem readPieces?_unit {n : Nat} (h : n < 0x20) :
    readPieces? ('\\' :: 'u' :: '0' :: '0' :: hexDigit (n / 16) :: hexDigit n :: rest)
      = (readPieces? rest).map fun read => (.unit n :: read.1, read.2) := by
  rw [readPieces?, unitValue?_hexDigits h]
  cases readPieces? rest <;> rfl

theorem readPieces?_char {c : Char} (hquote : c ≠ '"') (hslash : c ≠ '\\')
    (h : ¬ c.toNat < 0x20) : readPieces? (c :: rest)
      = (readPieces? rest).map fun read => (.char c :: read.1, read.2) := by
  rw [readPieces?, if_neg h]
  · cases readPieces? rest <;> rfl
  · exact fun hc => absurd hc hquote
  · exact fun _ _ _ _ _ hc => absurd hc hslash
  · exact fun _ _ hc => absurd hc hslash

/-- The text of one character is read as one piece. -/
theorem readPieces?_escapeChar (c : Char) : ∃ piece : Piece, piece.IsChar c ∧
    readPieces? (escapeChar c ++ rest)
      = (readPieces? rest).map fun read => (piece :: read.1, read.2) := by
  have hescaped : ∀ e, e ≠ 'u' → unescape? e = some c → ∃ piece : Piece, piece.IsChar c ∧
      readPieces? ('\\' :: e :: rest)
        = (readPieces? rest).map fun read => (piece :: read.1, read.2) :=
    fun e hu he => ⟨_, .char c, readPieces?_escaped rest hu he⟩
  rw [escapeChar]
  split_ifs with hquote hslash hback hfeed hnewline hreturn htab hcontrol
  · exact hescaped '"' (by decide) (by rw [hquote]; rfl)
  · exact hescaped '\\' (by decide) (by rw [hslash]; rfl)
  · exact hescaped 'b' (by decide) (hback ▸ rfl)
  · exact hescaped 'f' (by decide) (hfeed ▸ rfl)
  · exact hescaped 'n' (by decide) (hnewline ▸ rfl)
  · exact hescaped 'r' (by decide) (hreturn ▸ rfl)
  · exact hescaped 't' (by decide) (htab ▸ rfl)
  · exact ⟨_, .unit hcontrol, readPieces?_unit rest hcontrol⟩
  · exact ⟨_, .char c, readPieces?_char rest hquote hslash hcontrol⟩

/-- Reading a printed string gives its characters back. -/
theorem readPieces?_quoted : ∀ cs : List Char, ∃ pieces, joinPieces? pieces = some cs ∧
    readPieces? (cs.flatMap escapeChar ++ '"' :: rest) = some (pieces, rest)
  | [] => ⟨[], rfl, rfl⟩
  | c :: cs => by
    obtain ⟨pieces, hjoin, hread⟩ := readPieces?_quoted cs
    obtain ⟨piece, hpiece, hfirst⟩ :=
      readPieces?_escapeChar (cs.flatMap escapeChar ++ '"' :: rest) c
    refine ⟨piece :: pieces, ?_, ?_⟩
    · rw [hpiece, hjoin]
      rfl
    · rw [List.flatMap_cons, List.append_assoc, hfirst, hread]
      rfl

end Pieces

end Tree

theorem quoted_append (s : String) (rest : List Char) :
    quoted s ++ rest = '"' :: (s.toList.flatMap escapeChar ++ '"' :: rest) := by
  simp [quoted]

theorem quoted_append_inj {s t : String} {rest rest' : List Char}
    (h : quoted s ++ rest = quoted t ++ rest') : s = t ∧ rest = rest' := by
  rw [quoted_append, quoted_append] at h
  obtain ⟨pieces, hjoin, hread⟩ := Tree.readPieces?_quoted rest s.toList
  obtain ⟨pieces', hjoin', hread'⟩ := Tree.readPieces?_quoted rest' t.toList
  rw [(List.cons.inj h).2, hread'] at hread
  obtain ⟨rfl, hrest⟩ := Prod.mk.inj (Option.some.inj hread)
  exact ⟨String.toList_inj.1 (Option.some.inj (hjoin.symm.trans hjoin')), hrest.symm⟩

/-! ## Numbers -/

/-- Whether a text goes on with a character that no number has, or not at all. -/
def Stops (rest : List Char) : Prop :=
  ∀ c ∈ rest.head?, isNumeralChar c = false

theorem stops_nil : Stops [] :=
  nofun

theorem stops_cons {c : Char} (h : isNumeralChar c = false) (cs : List Char) : Stops (c :: cs) := by
  intro d hd
  obtain rfl := Option.some.inj hd
  exact h

theorem takeWhile_append {cs rest : List Char} (h : ∀ c ∈ cs, isNumeralChar c = true)
    (hrest : Stops rest) : (cs ++ rest).takeWhile isNumeralChar = cs := by
  rw [List.takeWhile_append_of_pos h]
  rcases rest with _ | ⟨c, rest⟩
  · simp
  · simp [hrest c rfl]

namespace Number

theorem isNumeralChar_of_mem_chars {n : Number} {c : Char} (h : c ∈ n.chars) :
    isNumeralChar c = true := by
  obtain ⟨negative, m, hchars⟩ := n.exists_chars
  exact Decimal.Numeral.isNumeralChar_of_mem_signed (hchars ▸ h)

theorem chars_append_inj {a b : Number} {rest rest' : List Char} (hrest : Stops rest)
    (hrest' : Stops rest') (h : a.chars ++ rest = b.chars ++ rest') : a = b ∧ rest = rest' := by
  have hchars : a.chars = b.chars := by
    rw [← takeWhile_append (fun _ => isNumeralChar_of_mem_chars) hrest, h,
      takeWhile_append (fun _ => isNumeralChar_of_mem_chars) hrest']
  exact ⟨chars_injective hchars, List.append_cancel_left (hchars ▸ h)⟩

end Number

/-! ## Values -/

namespace Value

/-- The kind of value that a character is the first of. -/
def kindOpenedBy? (c : Char) : Option String :=
  if isNumeralChar c then some "number"
  else if c = 'n' then some "null"
  else if c = 't' ∨ c = 'f' then some "boolean"
  else if c = '"' then some "string"
  else if c = '[' then some "list"
  else if c = '\x7b' then some "object"
  else none

theorem exists_chars (v : Value) :
    ∃ c cs, v.chars = c :: cs ∧ kindOpenedBy? c = some v.kindName := by
  match v with
  | null => exact ⟨_, _, rfl, rfl⟩
  | boolean true => exact ⟨_, _, rfl, rfl⟩
  | boolean false => exact ⟨_, _, rfl, rfl⟩
  | number n =>
    obtain ⟨negative, m, hchars⟩ := n.exists_chars
    obtain ⟨c, cs, hcons⟩ := List.exists_cons_of_ne_nil (Decimal.Numeral.signed_ne_nil negative m)
    have hmem : c ∈ n.chars := by
      rw [hchars, hcons]
      exact List.mem_cons_self
    refine ⟨c, cs, hchars.trans hcons, ?_⟩
    rw [kindOpenedBy?, if_pos (Number.isNumeralChar_of_mem_chars hmem)]
    rfl
  | text s => exact ⟨_, _, rfl, rfl⟩
  | list [] => exact ⟨_, _, rfl, rfl⟩
  | list (_ :: _) => exact ⟨_, _, rfl, rfl⟩
  | object [] => exact ⟨_, _, rfl, rfl⟩
  | object (_ :: _) => exact ⟨_, _, rfl, rfl⟩

/-- Texts that begin alike are of values of one kind. -/
theorem kindName_eq {v w : Value} {rest rest' : List Char}
    (h : v.chars ++ rest = w.chars ++ rest') : w.kindName = v.kindName := by
  obtain ⟨c, cs, hv, hkind⟩ := v.exists_chars
  obtain ⟨d, ds, hw, hkind'⟩ := w.exists_chars
  rw [hv, hw] at h
  obtain rfl : c = d := (List.cons.inj h).1
  exact Option.some.inj (hkind'.symm.trans hkind)

theorem chars_append_ne_cons (v : Value) (rest : List Char) {c : Char}
    (h : kindOpenedBy? c = none) (cs : List Char) : v.chars ++ rest ≠ c :: cs := by
  intro heq
  obtain ⟨d, ds, hchars, hkind⟩ := v.exists_chars
  rw [hchars] at heq
  obtain rfl : d = c := (List.cons.inj heq).1
  exact absurd (h.symm.trans hkind) nofun

theorem stops_itemsChars (items : List Value) (rest : List Char) :
    Stops (itemsChars items ++ rest) := by
  cases items <;> exact stops_cons rfl _

theorem stops_membersChars (members : List (String × Value)) (rest : List Char) :
    Stops (membersChars members ++ rest) := by
  cases members <;> exact stops_cons rfl _

mutual

/-- The text of a value is the beginning of no other text of a value. -/
theorem chars_append_inj : ∀ (v w : Value) {rest rest' : List Char}, Stops rest → Stops rest' →
    v.chars ++ rest = w.chars ++ rest' → v = w ∧ rest = rest'
  | null, w, rest, rest', _, _, h => by
    have hkind := kindName_eq h
    cases w with
    | null => exact ⟨rfl, List.append_cancel_left h⟩
    | boolean | number | text | list | object => simp [kindName] at hkind
  | boolean a, w, rest, rest', _, _, h => by
    have hkind := kindName_eq h
    cases w with
    | boolean b =>
      cases a <;> cases b
      · exact ⟨rfl, List.append_cancel_left h⟩
      · simp [chars] at h
      · simp [chars] at h
      · exact ⟨rfl, List.append_cancel_left h⟩
    | null | number | text | list | object => simp [kindName] at hkind
  | number a, w, rest, rest', hrest, hrest', h => by
    have hkind := kindName_eq h
    cases w with
    | number b =>
      obtain ⟨rfl, hrest⟩ := Number.chars_append_inj hrest hrest' h
      exact ⟨rfl, hrest⟩
    | null | boolean | text | list | object => simp [kindName] at hkind
  | text a, w, rest, rest', _, _, h => by
    have hkind := kindName_eq h
    cases w with
    | text b =>
      obtain ⟨rfl, hrest⟩ := quoted_append_inj h
      exact ⟨rfl, hrest⟩
    | null | boolean | number | list | object => simp [kindName] at hkind
  | list as, w, rest, rest', hrest, hrest', h => by
    have hkind := kindName_eq h
    cases w with
    | list bs =>
      match as, bs with
      | [], [] => exact ⟨rfl, List.append_cancel_left h⟩
      | [], b :: bs =>
        rw [chars, chars, List.append_assoc] at h
        exact absurd (List.cons.inj h).2.symm (b.chars_append_ne_cons _ rfl _)
      | a :: as, [] =>
        rw [chars, chars, List.append_assoc] at h
        exact absurd (List.cons.inj h).2 (a.chars_append_ne_cons _ rfl _)
      | a :: as, b :: bs =>
        obtain ⟨hitems, hrest⟩ :=
          itemsChars_append_inj (a :: as) (b :: bs) (congrArg (',' :: ·) (List.cons.inj h).2)
        exact ⟨congrArg list hitems, hrest⟩
    | null | boolean | number | text | object => simp [kindName] at hkind
  | object as, w, rest, rest', hrest, hrest', h => by
    have hkind := kindName_eq h
    cases w with
    | object bs =>
      match as, bs with
      | [], [] => exact ⟨rfl, List.append_cancel_left h⟩
      | [], (_, _) :: _ => simp [chars, quoted] at h
      | (_, _) :: _, [] => simp [chars, quoted] at h
      | (k, a) :: as, (l, b) :: bs =>
        obtain ⟨hmembers, hrest⟩ := membersChars_append_inj ((k, a) :: as) ((l, b) :: bs)
          (congrArg (',' :: ·) (List.cons.inj h).2)
        exact ⟨congrArg object hmembers, hrest⟩
    | null | boolean | number | text | list => simp [kindName] at hkind

theorem itemsChars_append_inj : ∀ (as bs : List Value) {rest rest' : List Char},
    itemsChars as ++ rest = itemsChars bs ++ rest' → as = bs ∧ rest = rest'
  | [], [], _, _, h => ⟨rfl, List.append_cancel_left h⟩
  | [], b :: bs, _, _, h => by simp [itemsChars] at h
  | a :: as, [], _, _, h => by simp [itemsChars] at h
  | a :: as, b :: bs, rest, rest', h => by
    simp only [itemsChars, List.cons_append, List.append_assoc, List.cons.injEq, true_and] at h
    obtain ⟨rfl, hitems⟩ := chars_append_inj a b (stops_itemsChars as _) (stops_itemsChars bs _) h
    obtain ⟨rfl, hrest⟩ := itemsChars_append_inj as bs hitems
    exact ⟨rfl, hrest⟩

theorem membersChars_append_inj : ∀ (as bs : List (String × Value)) {rest rest' : List Char},
    membersChars as ++ rest = membersChars bs ++ rest' → as = bs ∧ rest = rest'
  | [], [], _, _, h => ⟨rfl, List.append_cancel_left h⟩
  | [], (l, b) :: bs, _, _, h => by simp [membersChars] at h
  | (k, a) :: as, [], _, _, h => by simp [membersChars] at h
  | (k, a) :: as, (l, b) :: bs, rest, rest', h => by
    simp only [membersChars, List.cons_append, List.append_assoc, List.cons.injEq, true_and] at h
    obtain ⟨rfl, hvalue⟩ := quoted_append_inj h
    obtain ⟨rfl, hmembers⟩ := chars_append_inj a b (stops_membersChars as _)
      (stops_membersChars bs _) (List.cons.inj hvalue).2
    obtain ⟨rfl, hrest⟩ := membersChars_append_inj as bs hmembers
    exact ⟨rfl, hrest⟩

end

theorem toText_injective {v w : Value} (h : v.toText = w.toText) : v = w := by
  have hchars : v.chars ++ [] = w.chars ++ [] := by
    rw [List.append_nil, List.append_nil]
    exact String.ofList_inj.1 h
  exact (chars_append_inj v w stops_nil stops_nil hchars).1

end Value

end RecordQuery.Json
