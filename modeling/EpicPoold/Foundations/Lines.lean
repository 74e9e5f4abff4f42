import Mathlib.Tactic

/-! Streams cut into pieces that end with a separator, and a reader of such pieces that
stops at the first one it refuses. -/

namespace Foundations

section Frames

variable {α : Type} [DecidableEq α] (sep : α)

structure Frame (α : Type) where
  pieces : List (List α)
  inHand : List α

def Frame.feed (f : Frame α) (x : α) : Frame α :=
  if x = sep then ⟨f.pieces ++ [f.inHand ++ [x]], []⟩ else { f with inHand := f.inHand ++ [x] }

def frame (stream : List α) : Frame α := stream.foldl (Frame.feed sep) ⟨[], []⟩

def pieces (stream : List α) : List (List α) := (frame sep stream).pieces

def remainder (stream : List α) : List α := (frame sep stream).inHand

omit [DecidableEq α] in
def Ended (piece : List α) : Prop := ∃ body, piece = body ++ [sep] ∧ sep ∉ body

omit [DecidableEq α] in
structure Cut (stream : List α) (done : List (List α)) (rest : List α) : Prop where
  joined : done.flatten ++ rest = stream
  ended : ∀ piece ∈ done, Ended sep piece

variable {sep}

theorem feed_of_notMem (f : Frame α) (s : List α) (none : sep ∉ s) :
    s.foldl (Frame.feed sep) f = ⟨f.pieces, f.inHand ++ s⟩ := by
  induction s generalizing f with
  | nil => simp
  | cons x rest ih =>
      have other : x ≠ sep := fun same => none (by simp [same])
      have later : sep ∉ rest := fun member => none (List.mem_cons_of_mem x member)
      rw [List.foldl_cons, ih _ later, Frame.feed, if_neg other]
      simp

theorem feed_ended (f : Frame α) (piece : List α) (ended : Ended sep piece) :
    piece.foldl (Frame.feed sep) f = ⟨f.pieces ++ [f.inHand ++ piece], []⟩ := by
  obtain ⟨body, whole, none⟩ := ended
  rw [whole, List.foldl_append, feed_of_notMem f body none, List.foldl_cons, List.foldl_nil,
    Frame.feed, if_pos rfl, List.append_assoc]

theorem feed_flatten (f : Frame α) (done : List (List α)) (fresh : f.inHand = [])
    (ended : ∀ piece ∈ done, Ended sep piece) :
    done.flatten.foldl (Frame.feed sep) f = ⟨f.pieces ++ done, []⟩ := by
  induction done generalizing f with
  | nil =>
      rw [List.flatten_nil, List.foldl_nil, List.append_nil, ← fresh]
  | cons piece rest ih =>
      obtain ⟨first, others⟩ := List.forall_mem_cons.mp ended
      rw [List.flatten_cons, List.foldl_append, feed_ended f piece first, ih _ rfl others, fresh]
      simp

theorem feed_prepend (done : List (List α)) (s : List α) : ∀ f : Frame α,
    s.foldl (Frame.feed sep) ⟨done ++ f.pieces, f.inHand⟩ =
      ⟨done ++ (s.foldl (Frame.feed sep) f).pieces, (s.foldl (Frame.feed sep) f).inHand⟩ := by
  induction s with
  | nil => intro f; rfl
  | cons x rest ih =>
      intro f
      rw [List.foldl_cons, List.foldl_cons, ← ih]
      congr 1
      by_cases same : x = sep
      · simp [Frame.feed, same]
      · simp [Frame.feed, same]

theorem frame_of_cut {stream rest : List α} {done : List (List α)}
    (cut : Cut sep stream done rest) :
    pieces sep stream = done ++ pieces sep rest ∧ remainder sep stream = remainder sep rest := by
  have framed : frame sep stream = ⟨done ++ pieces sep rest, remainder sep rest⟩ := by
    rw [frame, ← cut.joined, List.foldl_append, feed_flatten _ done rfl cut.ended]
    have later := @feed_prepend _ _ sep done rest ⟨[], []⟩
    rwa [List.append_nil] at later
  rw [pieces, remainder, framed]
  exact ⟨rfl, rfl⟩

theorem frame_of_notMem {s : List α} (none : sep ∉ s) :
    pieces sep s = [] ∧ remainder sep s = s := by
  have framed : frame sep s = ⟨[], s⟩ := by
    rw [frame, feed_of_notMem _ s none]
    simp
  exact ⟨congrArg Frame.pieces framed, congrArg Frame.inHand framed⟩

theorem frame_of_whole_cut {stream rest : List α} {done : List (List α)}
    (cut : Cut sep stream done rest) (none : sep ∉ rest) :
    pieces sep stream = done ∧ remainder sep stream = rest := by
  obtain ⟨first, last⟩ := frame_of_cut cut
  obtain ⟨nothing, all⟩ := frame_of_notMem none
  rw [first, last, nothing, all, List.append_nil]
  exact ⟨rfl, rfl⟩

omit [DecidableEq α] in
theorem cut_nil : Cut sep [] [] [] := ⟨rfl, by simp⟩

omit [DecidableEq α] in
theorem cut_receive {stream rest : List α} {done : List (List α)} (cut : Cut sep stream done rest)
    (data : List α) : Cut sep (stream ++ data) done (rest ++ data) := by
  refine ⟨?_, cut.ended⟩
  rw [← List.append_assoc, cut.joined]

theorem ended_of_findIdx {s : List α} {i : Nat} (found : s.findIdx? (· = sep) = some i) :
    i < s.length ∧ Ended sep (s.take (i + 1)) := by
  obtain ⟨inside, here, before⟩ := List.findIdx?_eq_some_iff_getElem.mp found
  refine ⟨inside, s.take i, ?_, ?_⟩
  · have same : s[i] = sep := by simpa using here
    rw [List.take_add_one, List.getElem?_eq_getElem inside, same]
    rfl
  · intro member
    obtain ⟨j, short, same⟩ := List.getElem_of_mem member
    rw [List.length_take] at short
    rw [List.getElem_take] at same
    exact absurd same (by simpa using before j (by omega))

theorem notMem_of_findIdx {s : List α} (none : s.findIdx? (· = sep) = none) : sep ∉ s := by
  intro member
  have every := List.findIdx?_eq_none_iff.mp none sep member
  simp at every

theorem cut_take {stream rest : List α} {done : List (List α)} {i : Nat}
    (cut : Cut sep stream done rest) (found : rest.findIdx? (· = sep) = some i) :
    Cut sep stream (done ++ [rest.take (i + 1)]) (rest.drop (i + 1)) := by
  constructor
  · rw [List.flatten_append, List.flatten_singleton, List.append_assoc, List.take_append_drop,
      cut.joined]
  · intro piece member
    rcases List.mem_append.mp member with early | last
    · exact cut.ended piece early
    · rw [List.mem_singleton.mp last]
      exact (ended_of_findIdx found).2

theorem cut_initial {stream more rest : List α} {done : List (List α)}
    (cut : Cut sep stream done rest) (initial : stream <+: more) : done <+: pieces sep more := by
  obtain ⟨later, rfl⟩ := initial
  obtain ⟨first, _⟩ := frame_of_cut (cut_receive cut later)
  rw [first]
  exact List.prefix_append _ _

theorem pieces_of_findIdx {s : List α} {i : Nat} (found : s.findIdx? (· = sep) = some i) :
    pieces sep s = s.take (i + 1) :: pieces sep (s.drop (i + 1)) ∧
      remainder sep s = remainder sep (s.drop (i + 1)) := by
  have whole : Cut sep s [] s := ⟨rfl, by simp⟩
  exact frame_of_cut (cut_take whole found)

theorem frame_cut (stream : List α) :
    Cut sep stream (pieces sep stream) (remainder sep stream) ∧ sep ∉ remainder sep stream := by
  induction stream using List.reverseRecOn with
  | nil => exact ⟨cut_nil, List.not_mem_nil⟩
  | append_singleton stream x ih =>
      obtain ⟨⟨joined, ended⟩, none⟩ := ih
      have next : frame sep (stream ++ [x]) = (frame sep stream).feed sep x := by
        rw [frame, List.foldl_append]
        rfl
      rw [pieces, remainder, next, Frame.feed]
      split
      · rename_i same
        refine ⟨⟨?_, ?_⟩, List.not_mem_nil⟩
        · rw [List.flatten_append, List.flatten_singleton, List.append_nil, ← List.append_assoc]
          exact congrArg (· ++ [x]) joined
        · intro piece member
          rcases List.mem_append.mp member with early | last
          · exact ended piece early
          · rw [List.mem_singleton.mp last, same]
            exact ⟨_, rfl, none⟩
      · rename_i other
        refine ⟨⟨?_, ended⟩, ?_⟩
        · rw [← List.append_assoc]
          exact congrArg (· ++ [x]) joined
        · intro member
          rcases List.mem_append.mp member with early | last
          · exact none early
          · exact other (List.mem_singleton.mp last).symm

theorem pieces_initial {stream more : List α} (initial : stream <+: more) :
    pieces sep stream <+: pieces sep more :=
  cut_initial (frame_cut stream).1 initial

end Frames

section Refusals

variable {β : Type} (accepts : Nat → β → Bool)

/-- The items that are handed over until one is refused, numbered from `k`, and whether
one is. -/
def upToRefused : Nat → List β → List β × Bool
  | _, [] => ([], false)
  | k, item :: rest =>
      if accepts k item then
        (item :: (upToRefused (k + 1) rest).1, (upToRefused (k + 1) rest).2)
      else ([item], true)

def AllAccepted (k : Nat) (done : List β) : Prop :=
  ∀ j item, done[j]? = some item → accepts (k + j) item = true

variable {accepts}

theorem allAccepted_nil (k : Nat) : AllAccepted accepts k [] := by
  intro j item found
  simp at found

theorem allAccepted_snoc {k : Nat} {done : List β} {item : β} (before : AllAccepted accepts k done)
    (accepted : accepts (k + done.length) item = true) :
    AllAccepted accepts k (done ++ [item]) := by
  intro j other found
  by_cases early : j < done.length
  · rw [List.getElem?_append_left early] at found
    exact before j other found
  · rw [List.getElem?_append_right (Nat.not_lt.mp early), List.getElem?_singleton] at found
    split at found
    · rename_i last
      cases found
      have here : j = done.length := by omega
      rwa [here]
    · cases found

theorem allAccepted_cons {k : Nat} {item : β} {rest : List β}
    (all : AllAccepted accepts k (item :: rest)) :
    accepts k item = true ∧ AllAccepted accepts (k + 1) rest := by
  constructor
  · exact all 0 item rfl
  · intro j other found
    have later := all (j + 1) other (by simpa using found)
    rwa [show k + (j + 1) = k + 1 + j by omega] at later

/-- Where every item is accepted all are handed over. -/
theorem upToRefused_of_all {items : List β} : ∀ k, AllAccepted accepts k items →
    upToRefused accepts k items = (items, false) := by
  induction items with
  | nil => intro k _; rfl
  | cons item rest ih =>
      intro k all
      obtain ⟨first, others⟩ := allAccepted_cons all
      rw [upToRefused, if_pos first, ih (k + 1) others]

theorem upToRefused_of_refused {done later : List β} {item : β} : ∀ k,
    AllAccepted accepts k done → accepts (k + done.length) item = false →
    upToRefused accepts k (done ++ item :: later) = (done ++ [item], true) := by
  induction done with
  | nil =>
      intro k _ refused
      rw [List.nil_append, upToRefused, if_neg (by simpa using refused), List.nil_append]
  | cons first rest ih =>
      intro k all refused
      obtain ⟨accepted, others⟩ := allAccepted_cons all
      have last : accepts (k + 1 + rest.length) item = false := by
        rw [← refused, List.length_cons, Nat.add_right_comm, Nat.add_assoc k]
      rw [List.cons_append, upToRefused, if_pos accepted, ih (k + 1) others last, List.cons_append]

variable (accepts) in
/-- The items done are the first of a list, each accepted but for the last if one is
refused, and all of the list once it is read to its end. -/
structure Offered (items done : List β) (refused ended : Prop) : Prop where
  initial : done <+: items
  accepted : ¬ refused → AllAccepted accepts 0 done
  last : refused → ∃ before item, done = before ++ [item] ∧ AllAccepted accepts 0 before ∧
    accepts before.length item = false
  whole : ended → done = items

variable {items done : List β} {item : β} {refused ended : Prop}

theorem offered_nil (items : List β) (fine : ¬ refused) (open' : ¬ ended) :
    Offered accepts items [] refused ended where
  initial := List.nil_prefix
  accepted := fun _ => allAccepted_nil 0
  last := fun bad => absurd bad fine
  whole := fun last => absurd last open'

theorem Offered.more (before : Offered accepts items done refused ended) (running : ¬ refused)
    {items' : List β} {refused' ended' : Prop} (initial : done <+: items') (fine : ¬ refused')
    (whole : ended' → done = items') : Offered accepts items' done refused' ended' where
  initial := initial
  accepted := fun _ => before.accepted running
  last := fun bad => absurd bad fine
  whole := whole

theorem Offered.accept (before : Offered accepts items done refused ended) (running : ¬ refused)
    {refused' ended' : Prop} (initial : done ++ [item] <+: items)
    (accepted : accepts done.length item = true) (fine : ¬ refused') (open' : ¬ ended') :
    Offered accepts items (done ++ [item]) refused' ended' where
  initial := initial
  accepted := fun _ => allAccepted_snoc (before.accepted running) (by rwa [Nat.zero_add])
  last := fun bad => absurd bad fine
  whole := fun last => absurd last open'

theorem Offered.refuse (before : Offered accepts items done refused ended) (running : ¬ refused)
    {refused' ended' : Prop} (initial : done ++ [item] <+: items)
    (bad : accepts done.length item = false) (here : refused') (open' : ¬ ended') :
    Offered accepts items (done ++ [item]) refused' ended' where
  initial := initial
  accepted := fun fine => absurd here fine
  last := fun _ => ⟨done, item, rfl, before.accepted running, bad⟩
  whole := fun last => absurd last open'

theorem Offered.upToRefused_ended (offered : Offered accepts items done refused ended)
    (fine : ¬ refused) (last : ended) : upToRefused accepts 0 items = (done, false) := by
  have whole := offered.whole last
  rw [← whole]
  exact upToRefused_of_all 0 (offered.accepted fine)

theorem Offered.upToRefused_refused (offered : Offered accepts items done refused ended)
    (bad : refused) {all : List β} (initial : items <+: all) :
    upToRefused accepts 0 all = (done, true) := by
  obtain ⟨before, item, rfl, accepted, refused⟩ := offered.last bad
  obtain ⟨later, rfl⟩ := offered.initial.trans initial
  rw [List.append_assoc, List.singleton_append]
  exact upToRefused_of_refused 0 accepted (by rwa [Nat.zero_add])

end Refusals

end Foundations
