import Mathlib.Data.List.DropRight
import Mathlib.Data.List.Forall2
import Mathlib.Data.List.Induction
import RecordQuery.Filter.Draft
import RecordQuery.Proofs.KeyOrder

/-!
# What a draft builds

Where conditions go is a matter of the calls so far: what has been called since conditions were
last given says whether they stay in one query (`Draft.placement`). A draft keeps of all that one
mark, which never says to go on in a query where there is none (`Draft.Mirrors.current`). So the
statements that a sequence of calls builds are laid out by the calls alone, with every condition
given in its place (`Draft.Laid`).
-/

namespace RecordQuery

open Json

namespace Draft

/-- The calls that build a filter. -/
inductive Call where
  | field (path : String) (condition : Condition)
  | equal (path : String) (operand : Operand)
  | query (query : Query)
  | or
  | and
  | statement (queries : Statement)
  | sortBy (field : String) (direction : Direction)
  | sortByItem (field : String) (id : Value) (property : String) (direction : Direction)
  | limit (n : Nat)

def perform (draft : Draft) : Call → Draft
  | .field path condition => draft.field path condition
  | .equal path operand => draft.equal path operand
  | .query query => draft.query query
  | .or => draft.or
  | .and => draft.and
  | .statement queries => draft.statement queries
  | .sortBy field direction => draft.sortBy ⟨⟨field⟩, none, direction⟩
  | .sortByItem field id property direction =>
    draft.sortBy ⟨⟨field⟩, some ⟨id, property⟩, direction⟩
  | .limit n => draft.limit n

def performAll (calls : List Call) : Draft :=
  calls.foldl perform {}

/-- The filter that a sequence of calls builds. -/
def build (calls : List Call) : Filter :=
  (performAll calls).filter

/-! ## Calls by what they are for -/

namespace Call

/-- The conditions that a call puts into a query, if it is for that. -/
def conditions? : Call → Option (List (String × Condition))
  | field path condition => some [(path, condition)]
  | equal path operand => some [(path, .equal operand)]
  | query entries => some entries
  | _ => none

def statement? : Call → Option Statement
  | statement queries => some queries
  | _ => none

def rule? : Call → Option SortRule
  | sortBy path direction => some ⟨⟨path⟩, none, direction⟩
  | sortByItem path id property direction => some ⟨⟨path⟩, some ⟨id, property⟩, direction⟩
  | _ => none

def limit? : Call → Option Nat
  | limit n => some n
  | _ => none

def isOr : Call → Bool
  | or => true
  | _ => false

/-- Whether conditions given after the call belong to another statement. -/
def endsStatement : Call → Bool
  | and | statement _ => true
  | _ => false

end Call

/-- The calls since conditions were last given. -/
def since (calls : List Call) : List Call :=
  calls.rtakeWhile fun call => call.conditions?.isNone

/-- Where conditions go that are given after some calls. -/
def placement (calls : List Call) : Opening :=
  if calls.all (fun call => call.conditions?.isNone) || (since calls).any Call.endsStatement then
    .newStatement
  else if (since calls).any Call.isOr then .newQuery
  else .sameQuery

/-! ## The layout -/

/-- A statement as it comes about: taken in as a whole, or made of alternatives that hold all
conditions given for them. -/
inductive Part where
  | given (queries : Statement)
  | made (alternatives : List (List (String × Condition)))

/-- What a call adds to the parts there, where its conditions would have the given place. -/
inductive Adds : Opening → Call → List Part → List Part → Prop
  | statement {place : Opening} {parts : List Part} (queries : Statement) :
      Adds place (.statement queries) parts (parts ++ [.given queries])
  | newStatement {call : Call} {conditions : List (String × Condition)} {parts : List Part} :
      call.conditions? = some conditions →
      Adds .newStatement call parts (parts ++ [.made [conditions]])
  | newQuery {call : Call} {conditions : List (String × Condition)} {parts before : List Part}
      {alternatives : List (List (String × Condition))} :
      call.conditions? = some conditions → parts = before ++ [.made alternatives] →
      Adds .newQuery call parts (before ++ [.made (alternatives ++ [conditions])])
  | sameQuery {call : Call} {conditions current : List (String × Condition)}
      {parts before : List Part} {alternatives : List (List (String × Condition))} :
      call.conditions? = some conditions →
      parts = before ++ [.made (alternatives ++ [current])] →
      Adds .sameQuery call parts (before ++ [.made (alternatives ++ [current ++ conditions])])
  | nothing {place : Opening} {call : Call} {parts : List Part} :
      call.conditions? = none → call.statement? = none → Adds place call parts parts

/-- The parts that calls lay out. -/
inductive Laid : List Call → List Part → Prop
  | start : Laid [] []
  | call {calls : List Call} {call : Call} {parts added : List Part} :
      Laid calls parts → Adds (placement calls) call parts added → Laid (calls ++ [call]) added

/-- A query has the last condition given for each path, and no other. -/
structure IsQueryOf (conditions : List (String × Condition)) (query : Query) : Prop where
  sorted : Keyed.Sorted query
  last : ∀ path, Keyed.find? path query
    = (conditions.reverse.find? fun entry => entry.1 = path).map Prod.snd

namespace Part

/-- What a statement is that comes about as a part says. -/
inductive Gives : Part → Statement → Prop
  | given (queries : Statement) : Gives (given queries) queries
  | made {alternatives : List (List (String × Condition))} {queries : Statement} :
      List.Forall₂ IsQueryOf alternatives queries → Gives (made alternatives) queries

/-- The conditions that calls have given for a part. -/
def conditions : Part → List (String × Condition)
  | given _ => []
  | made alternatives => alternatives.flatten

def statement : Part → Statement
  | given queries => queries
  | made alternatives => alternatives.map Keyed.ofList

theorem gives_statement : ∀ part : Part, part.Gives part.statement
  | given queries => .given queries
  | made alternatives => by
    refine .made (List.forall₂_map_right_iff.2 (List.forall₂_same.2 fun conditions _ => ?_))
    exact ⟨Keyed.sorted_ofList conditions, fun path => Keyed.find?_ofList path conditions⟩

end Part

/-! ## What one call does -/

theorem changeLast_concat {α : Type} (f : α → α) (a : α) : ∀ as : List α,
    changeLast f (as ++ [a]) = as ++ [f a]
  | [] => rfl
  | [_] => rfl
  | b :: c :: as => congrArg (b :: ·) (changeLast_concat f a (c :: as))

section WithQuery

variable {draft : Draft} {before : List Statement} {queries : Statement} (update : Query → Query)

theorem statements_withQuery_newStatement (h : draft.opening = .newStatement) :
    (draft.withQuery update).filter.statements = draft.filter.statements ++ [[update []]] := by
  have hopen : openQuery .newStatement draft.filter.statements
      = draft.filter.statements ++ [[[]]] := by
    cases draft.filter.statements <;> rfl
  rw [withQuery, h, hopen, updateLast, changeLast_concat]
  rfl

theorem statements_withQuery_newQuery (h : draft.opening = .newQuery)
    (hs : draft.filter.statements = before ++ [queries]) :
    (draft.withQuery update).filter.statements = before ++ [queries ++ [update []]] := by
  have hopen : openQuery .newQuery (before ++ [queries]) = before ++ [queries ++ [[]]] := by
    rcases before with _ | ⟨b, before⟩
    · rfl
    · exact changeLast_concat _ queries (b :: before)
  rw [withQuery, h, hs, hopen, updateLast, changeLast_concat, changeLast_concat]

theorem statements_withQuery_sameQuery {query : Query} (h : draft.opening = .sameQuery)
    (hs : draft.filter.statements = before ++ [queries ++ [query]]) :
    (draft.withQuery update).filter.statements = before ++ [queries ++ [update query]] := by
  have hopen : openQuery .sameQuery (before ++ [queries ++ [query]])
      = before ++ [queries ++ [query]] := by
    rcases before with _ | ⟨b, before⟩ <;> rfl
  rw [withQuery, h, hs, hopen, updateLast, changeLast_concat, changeLast_concat]

end WithQuery

theorem perform_of_conditions {call : Call} {conditions : List (String × Condition)}
    (h : call.conditions? = some conditions) (draft : Draft) :
    draft.perform call = draft.withQuery fun query => Query.addAll query conditions := by
  cases call with
  | field | equal | query =>
    cases h
    rfl
  | or | and | statement | sortBy | sortByItem | limit => cases h

theorem addAll_ofList (entries others : List (String × Condition)) :
    Query.addAll (Keyed.ofList entries) others = Keyed.ofList (entries ++ others) := by
  rw [Query.addAll, Keyed.ofList, Keyed.ofList, List.foldl_append]
  rfl

theorem since_concat (calls : List Call) (call : Call) :
    since (calls ++ [call])
      = if call.conditions?.isNone then since calls ++ [call] else [] :=
  List.rtakeWhile_concat ..

theorem placement_concat_some {call : Call} {conditions : List (String × Condition)}
    (h : call.conditions? = some conditions) (calls : List Call) :
    placement (calls ++ [call]) = .sameQuery := by
  simp [placement, since_concat, h]

/-- What a call that gives no conditions changes of the place for the next ones. -/
theorem placement_concat_none {call : Call} (h : call.conditions? = none) (calls : List Call) :
    placement (calls ++ [call])
      = if call.endsStatement then .newStatement
        else if call.isOr ∧ placement calls = .sameQuery then .newQuery
        else placement calls := by
  have hsince : since (calls ++ [call]) = since calls ++ [call] := by
    rw [since_concat, h]
    rfl
  simp only [placement, hsince, List.all_append, List.any_append, List.all_cons, List.all_nil,
    List.any_cons, List.any_nil, h, Option.isNone_none, Bool.and_true, Bool.or_false]
  rcases (calls.all (·.conditions?.isNone)).eq_false_or_eq_true with hfresh | hfresh <;>
    rcases ((since calls).any Call.endsStatement).eq_false_or_eq_true with hended | hended <;>
    rcases ((since calls).any Call.isOr).eq_false_or_eq_true with hor | hor <;>
    simp only [hfresh, hended, hor] <;>
    cases call.endsStatement <;> cases call.isOr <;> rfl

/-- A draft that the calls have led to, with the parts that they lay out. -/
structure Mirrors (calls : List Call) (parts : List Part) (draft : Draft) : Prop where
  laid : Laid calls parts
  statements : draft.filter.statements = parts.map Part.statement
  opening : draft.opening = placement calls
  /-- There is a query at hand unless the next one is for a new statement. -/
  current : draft.opening ≠ .newStatement →
    ∃ before alternatives conditions, parts = before ++ [.made (alternatives ++ [conditions])]

theorem opening_perform_of_none {call : Call} (h : call.conditions? = none) (draft : Draft) :
    (draft.perform call).opening
      = if call.endsStatement then .newStatement
        else if call.isOr ∧ draft.opening = .sameQuery then .newQuery
        else draft.opening := by
  cases call with
  | field | equal | query => cases h
  | or =>
    simp only [perform, Draft.or, Call.endsStatement, Call.isOr, true_and, Bool.false_eq_true,
      if_false]
    split <;> rfl
  | and | statement => rfl
  | sortBy | sortByItem | limit => simp [perform, sortBy, limit, Call.endsStatement, Call.isOr]

theorem statements_perform_of_none {call : Call} (h : call.conditions? = none) (draft : Draft) :
    (draft.perform call).filter.statements
      = draft.filter.statements ++ call.statement?.toList := by
  cases call with
  | field | equal | query => cases h
  | or =>
    rw [perform, Draft.or]
    split <;> exact (List.append_nil _).symm
  | statement queries => rfl
  | and | sortBy | sortByItem | limit => exact (List.append_nil _).symm

theorem Mirrors.perform {calls : List Call} {parts : List Part} {draft : Draft}
    (h : Mirrors calls parts draft) (call : Call) :
    ∃ added, Mirrors (calls ++ [call]) added (draft.perform call) := by
  rcases hc : call.conditions? with _ | conditions
  · have hopening : (draft.perform call).opening = placement (calls ++ [call]) := by
      rw [opening_perform_of_none hc, placement_concat_none hc, h.opening]
    have hstatements := statements_perform_of_none hc draft
    rcases hs : call.statement? with _ | queries
    · rw [hs, Option.toList_none, List.append_nil] at hstatements
      refine ⟨parts, h.laid.call (.nothing hc hs), hstatements.trans h.statements, hopening, ?_⟩
      intro hne
      refine h.current fun hnew => hne ?_
      rw [opening_perform_of_none hc, hnew]
      simp
    · obtain rfl : call = .statement queries := by
        cases call <;> cases hs
        rfl
      refine ⟨_, h.laid.call (.statement queries), ?_, hopening, fun hne => absurd rfl hne⟩
      rw [hstatements, h.statements, List.map_append]
      rfl
  · have hperform := perform_of_conditions hc draft
    have hsame : (draft.perform call).opening = placement (calls ++ [call]) := by
      rw [hperform, placement_concat_some hc]
      rfl
    have hstatements := h.statements
    rcases ho : draft.opening with _ | _ | _
    · obtain ⟨before, alternatives, current, rfl⟩ := h.current (by rw [ho]; nofun)
      have hadds : Adds (placement calls) call (before ++ [.made (alternatives ++ [current])])
          (before ++ [.made (alternatives ++ [current ++ conditions])]) := by
        rw [← h.opening, ho]
        exact .sameQuery hc rfl
      refine ⟨_, h.laid.call hadds, ?_, hsame, fun _ => ⟨_, _, _, rfl⟩⟩
      simp only [List.map_append, List.map_singleton, Part.statement] at hstatements ⊢
      rw [hperform, statements_withQuery_sameQuery _ ho hstatements, addAll_ofList]
    · obtain ⟨before, alternatives, current, rfl⟩ := h.current (by rw [ho]; nofun)
      have hadds : Adds (placement calls) call (before ++ [.made (alternatives ++ [current])])
          (before ++ [.made (alternatives ++ [current] ++ [conditions])]) := by
        rw [← h.opening, ho]
        exact .newQuery hc rfl
      refine ⟨_, h.laid.call hadds, ?_, hsame, fun _ => ⟨_, _, _, rfl⟩⟩
      have hlast : (alternatives ++ [current] ++ [conditions]).map Keyed.ofList
          = (alternatives ++ [current]).map Keyed.ofList ++ [Query.addAll [] conditions] :=
        List.map_append
      rw [List.map_append, List.map_singleton] at hstatements ⊢
      rw [hperform, statements_withQuery_newQuery _ ho hstatements, Part.statement, Part.statement,
        hlast]
    · have hadds : Adds (placement calls) call parts (parts ++ [.made [conditions]]) := by
        rw [← h.opening, ho]
        exact .newStatement hc
      refine ⟨_, h.laid.call hadds, ?_, hsame, fun _ => ⟨parts, [], conditions, rfl⟩⟩
      rw [hperform, statements_withQuery_newStatement _ ho, hstatements, List.map_append]
      rfl

/-! ## What a sequence of calls does -/

theorem performAll_concat (calls : List Call) (call : Call) :
    performAll (calls ++ [call]) = (performAll calls).perform call := by
  rw [performAll, List.foldl_append]
  rfl

theorem exists_mirrors (calls : List Call) : ∃ parts, Mirrors calls parts (performAll calls) := by
  induction calls using List.reverseRecOn with
  | nil => exact ⟨[], .start, rfl, rfl, fun h => absurd rfl h⟩
  | append_singleton calls call ih =>
    obtain ⟨parts, hparts⟩ := ih
    rw [performAll_concat]
    exact hparts.perform call

theorem Adds.unique {place : Opening} {call : Call} {parts added added' : List Part}
    (h : Adds place call parts added) (h' : Adds place call parts added') : added = added' := by
  cases h with
  | statement queries =>
    cases h' with
    | statement => rfl
    | newStatement hc | newQuery hc | sameQuery hc => cases hc
    | nothing hc hs => cases hs
  | newStatement hc =>
    cases h' with
    | statement => cases hc
    | newStatement hc' => rw [Option.some.inj (hc.symm.trans hc')]
    | nothing hc' => cases hc.symm.trans hc'
  | newQuery hc hp =>
    cases h' with
    | statement => cases hc
    | newQuery hc' hp' =>
      obtain ⟨rfl, hlast⟩ := List.append_inj' (hp.symm.trans hp') rfl
      cases hlast
      rw [Option.some.inj (hc.symm.trans hc')]
    | nothing hc' => cases hc.symm.trans hc'
  | sameQuery hc hp =>
    cases h' with
    | statement => cases hc
    | sameQuery hc' hp' =>
      obtain ⟨rfl, hlast⟩ := List.append_inj' (hp.symm.trans hp') rfl
      obtain ⟨rfl, hcurrent⟩ :=
        List.append_inj' (Part.made.inj (List.singleton_inj.1 hlast)) rfl
      rw [Option.some.inj (hc.symm.trans hc'), List.singleton_inj.1 hcurrent]
    | nothing hc' => cases hc.symm.trans hc'
  | nothing hc hs =>
    cases h' with
    | statement => cases hs
    | newStatement hc' | newQuery hc' | sameQuery hc' => cases hc.symm.trans hc'
    | nothing => rfl

theorem Laid.unique {calls : List Call} {parts parts' : List Part} (h : Laid calls parts)
    (h' : Laid calls parts') : parts = parts' := by
  induction h generalizing parts' with
  | start =>
    generalize hcalls : ([] : List Call) = calls at h'
    cases h' with
    | start => rfl
    | call => simp at hcalls
  | @call calls call parts added _ hadds ih =>
    generalize hcalls : calls ++ [call] = all at h'
    cases h' with
    | start => simp at hcalls
    | call hlaid' hadds' =>
      obtain ⟨rfl, hlast⟩ := List.append_inj' hcalls rfl
      obtain rfl := List.singleton_inj.1 hlast
      obtain rfl := ih hlaid'
      exact hadds.unique hadds'

theorem Adds.conditions {place : Opening} {call : Call} {parts added : List Part}
    (h : Adds place call parts added) :
    added.flatMap Part.conditions
      = parts.flatMap Part.conditions ++ call.conditions?.getD [] := by
  cases h with
  | statement queries => simp [Part.conditions, Call.conditions?]
  | newStatement hc => simp [Part.conditions, hc]
  | newQuery hc hp | sameQuery hc hp => simp [Part.conditions, hc, hp]
  | nothing hc hs => simp [hc]

theorem Laid.conditions {calls : List Call} {parts : List Part} (h : Laid calls parts) :
    parts.flatMap Part.conditions = calls.flatMap fun call => call.conditions?.getD [] := by
  induction h with
  | start => rfl
  | call _ hadds ih => rw [hadds.conditions, ih, List.flatMap_append, List.flatMap_singleton]

theorem sort_perform (draft : Draft) (call : Call) :
    (draft.perform call).filter.sort = call.rule?.or draft.filter.sort := by
  cases call with
  | or =>
    rw [perform, Draft.or]
    split <;> rfl
  | field | equal | query | and | statement | sortBy | sortByItem | limit => rfl

theorem limit_perform (draft : Draft) (call : Call) :
    (draft.perform call).filter.limit = call.limit?.or draft.filter.limit := by
  cases call with
  | or =>
    rw [perform, Draft.or]
    split <;> rfl
  | field | equal | query | and | statement | sortBy | sortByItem | limit => rfl

/-- What the last call of some kind has set. -/
theorem getLast?_filterMap_concat {β γ : Type} (f : β → Option γ) (bs : List β) (b : β) :
    ((bs ++ [b]).filterMap f).getLast? = (f b).or (bs.filterMap f).getLast? := by
  rw [List.filterMap_append, List.getLast?_append]
  cases hb : f b <;> simp [hb]

theorem sort_performAll (calls : List Call) :
    (performAll calls).filter.sort = (calls.filterMap Call.rule?).getLast? := by
  induction calls using List.reverseRecOn with
  | nil => rfl
  | append_singleton calls call ih =>
    rw [performAll_concat, sort_perform, ih, getLast?_filterMap_concat]

theorem limit_performAll (calls : List Call) :
    (performAll calls).filter.limit = (calls.filterMap Call.limit?).getLast? := by
  induction calls using List.reverseRecOn with
  | nil => rfl
  | append_singleton calls call ih =>
    rw [performAll_concat, limit_perform, ih, getLast?_filterMap_concat]

/-- Calls lay out parts in one way, which holds all conditions given, in order. The filter built has
the statements of these parts, and the sort rule and the limit that were set last. -/
theorem build_laid (calls : List Call) :
    ∃ parts, (∀ parts', Laid calls parts' ↔ parts' = parts) ∧
      parts.flatMap Part.conditions = (calls.flatMap fun call => call.conditions?.getD []) ∧
      List.Forall₂ Part.Gives parts (build calls).statements ∧
      (build calls).sort = (calls.filterMap Call.rule?).getLast? ∧
      (build calls).limit = (calls.filterMap Call.limit?).getLast? := by
  obtain ⟨parts, hparts⟩ := exists_mirrors calls
  refine ⟨parts, fun parts' => ⟨fun h => h.unique hparts.laid, ?_⟩, hparts.laid.conditions, ?_,
    sort_performAll calls, limit_performAll calls⟩
  · rintro rfl
    exact hparts.laid
  · rw [build, hparts.statements, List.forall₂_map_right_iff, List.forall₂_same]
    exact fun part _ => part.gives_statement

/-- Connectors at either end and connectors in a row add nothing, and the later one of two
conditions on a path counts. -/
example (a b c : Condition) :
    (build [.or, .field "x" a, .and, .or, .field "y" b, .or, .or, .field "z" a, .field "z" c,
      .or]).statements = [[[("x", a)]], [[("y", b)], [("z", c)]]] := by
  with_unfolding_all rfl

end Draft

end RecordQuery
