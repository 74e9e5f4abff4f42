import Mathlib.Data.List.Basic

/-! A walk along a list that removes some of its elements, calls a function on the others
and stops where the function says so. -/

namespace Foundations

/-- What became of an element: it was removed, or the function was called on it and said
whether to go on. -/
inductive Visit (α : Type*) where
  | removed (element : α)
  | called (element : α) (more : Bool)
  deriving DecidableEq

namespace Visit

variable {α : Type*}

def element : Visit α → α
  | .removed element => element
  | .called element _ => element

def goesOn : Visit α → Bool
  | .removed _ => true
  | .called _ more => more

def test : Visit α → α × Bool
  | .removed element => (element, true)
  | .called element _ => (element, false)

def stays : Visit α → Option α
  | .removed _ => none
  | .called element _ => some element

end Visit

variable {α : Type*}

def kept (visits : List (Visit α)) : List α := visits.filterMap Visit.stays

/-- The walk along `whole` has made these visits, has the rest before it and has left the
list as `left`. -/
structure Underway (whole left : List α) (visits : List (Visit α)) (rest : List α) : Prop where
  order : whole = visits.map Visit.element ++ rest
  left : left = kept visits ++ rest
  onward : ∀ visit ∈ visits, visit.goesOn = true

/-- The walk is over: at the end of the list, or at the first element where the function
said to stop. -/
inductive Traversed (whole left : List α) (visits : List (Visit α)) : Prop
  | ended (underway : Underway whole left visits [])
  | stopped {earlier : List (Visit α)} {element : α} {rest : List α}
      (last : visits = earlier ++ [.called element false])
      (underway : Underway whole left earlier (element :: rest))

theorem kept_append (first second : List (Visit α)) :
    kept (first ++ second) = kept first ++ kept second := List.filterMap_append

namespace Underway

variable {whole left rest : List α} {visits : List (Visit α)} {element : α}

theorem start (whole : List α) : Underway whole whole [] whole :=
  ⟨rfl, rfl, fun _ among => absurd among List.not_mem_nil⟩

theorem append (underway : Underway whole left visits (element :: rest)) {visit : Visit α}
    (here : visit.element = element) (onward : visit.goesOn = true) :
    Underway whole (kept (visits ++ [visit]) ++ rest) (visits ++ [visit]) rest := by
  refine ⟨?_, rfl, ?_⟩
  · rw [underway.order, List.map_append, List.append_assoc, ← here]
    rfl
  · intro other among
    rcases List.mem_append.mp among with earlier | last
    · exact underway.onward other earlier
    · rw [List.mem_singleton.mp last]
      exact onward

theorem removed (underway : Underway whole left visits (element :: rest)) :
    Underway whole (kept visits ++ rest) (visits ++ [.removed element]) rest := by
  have next : Underway whole _ (visits ++ [.removed element]) rest := underway.append rfl rfl
  rwa [kept_append, show kept [Visit.removed element] = [] from rfl, List.append_nil] at next

theorem called (underway : Underway whole left visits (element :: rest)) :
    Underway whole left (visits ++ [.called element true]) rest := by
  have next : Underway whole _ (visits ++ [.called element true]) rest :=
    underway.append rfl rfl
  rw [kept_append, List.append_assoc] at next
  rw [underway.left]
  exact next

theorem erase [DecidableEq α] (underway : Underway whole left visits (element :: rest))
    (nodup : left.Nodup) : left.erase element = kept visits ++ rest := by
  rw [underway.left] at nodup ⊢
  have outside : element ∉ kept visits := by
    intro inside
    exact (List.nodup_append.mp nodup).2.2 element inside element List.mem_cons_self rfl
  rw [List.erase_append_right _ outside, List.erase_cons_head]

end Underway

end Foundations
