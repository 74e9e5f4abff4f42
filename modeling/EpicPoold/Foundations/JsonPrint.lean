import EpicPoold.Foundations.JsonText

/-! JSON texts: printing without blanks. What is printed is read back as the value it was
printed from. -/

namespace Foundations.JsonText

mutual

def Doc.print : Doc → List UInt8
  | .null => [0x6e, 0x75, 0x6c, 0x6c]
  | .bool true => [0x74, 0x72, 0x75, 0x65]
  | .bool false => [0x66, 0x61, 0x6c, 0x73, 0x65]
  | .number text => text
  | .string text => quoted text []
  | .array [] => [0x5b, 0x5d]
  | .array (item :: more) => 0x5b :: (item.print ++ printItems more)
  | .object [] => [0x7b, 0x7d]
  | .object (member :: more) => 0x7b :: (printMember member ++ printMembers more)

def printItems : List Doc → List UInt8
  | [] => [0x5d]
  | item :: more => comma :: (item.print ++ printItems more)

def printMember : List UInt8 × Doc → List UInt8
  | (key, doc) => field key doc.print

def printMembers : List (List UInt8 × Doc) → List UInt8
  | [] => [0x7d]
  | member :: more => comma :: (printMember member ++ printMembers more)

end

structure IsNatural (digits : List UInt8) : Prop where
  some : digits ≠ []
  numeric : ∀ b ∈ digits, isNumeric b = true
  canonical : digits.headD 0 = 0x30 → digits = [0x30]

def IsInteger (text : List UInt8) : Prop :=
  IsNatural text ∨ ∃ digits, text = 0x2d :: digits ∧ IsNatural digits

/-- A value whose strings need no escapes and whose numbers are integers. -/
inductive Printable : Doc → Prop
  | null : Printable .null
  | bool (b : Bool) : Printable (.bool b)
  | number {text : List UInt8} (integer : IsInteger text) : Printable (.number text)
  | string {text : List UInt8} (plain : ∀ b ∈ text, IsPlain b) : Printable (.string text)
  | array {items : List Doc} (each : ∀ d ∈ items, Printable d) : Printable (.array items)
  | object {members : List (List UInt8 × Doc)} (keys : ∀ m ∈ members, ∀ b ∈ m.1, IsPlain b)
      (each : ∀ m ∈ members, Printable m.2) : Printable (.object members)

theorem Printable.nil : Printable (.object []) :=
  .object (fun _ impossible => by cases impossible) (fun _ impossible => by cases impossible)

theorem Printable.cons {key : List UInt8} {doc : Doc} {members : List (List UInt8 × Doc)}
    (plain : ∀ b ∈ key, IsPlain b) (first : Printable doc) (others : Printable (.object members)) :
    Printable (.object ((key, doc) :: members)) := by
  cases others with
  | object keys each =>
      exact .object (List.forall_mem_cons.mpr ⟨plain, keys⟩)
        (List.forall_mem_cons.mpr ⟨first, each⟩)

def Stops (rest : List UInt8) : Prop :=
  ∀ c ∈ rest.head?, c = comma ∨ c = 0x5d ∨ c = 0x7d

theorem stops_nil : Stops [] := by
  intro c first
  cases first

theorem stops_comma (rest : List UInt8) : Stops (comma :: rest) := by
  intro c first
  cases first
  exact .inl rfl

theorem stops_bracket (rest : List UInt8) : Stops (0x5d :: rest) := by
  intro c first
  cases first
  exact .inr (.inl rfl)

theorem stops_brace (rest : List UInt8) : Stops (0x7d :: rest) := by
  intro c first
  cases first
  exact .inr (.inr rfl)

section Numbers

variable {digits rest : List UInt8}

theorem takeWhile_numeric (numeric : ∀ b ∈ digits, isNumeric b = true) (stops : Stops rest) :
    (digits ++ rest).takeWhile isNumeric = digits ∧
      (digits ++ rest).dropWhile isNumeric = rest := by
  have none : rest.takeWhile isNumeric = [] ∧ rest.dropWhile isNumeric = rest := by
    cases rest with
    | nil => exact ⟨rfl, rfl⟩
    | cons c more =>
        have other : isNumeric c = false := by
          rcases stops c rfl with rfl | rfl | rfl <;> decide
        rw [List.takeWhile_cons_of_neg (by simp [other]), List.dropWhile_cons_of_neg
          (by simp [other])]
        exact ⟨rfl, rfl⟩
  rw [List.takeWhile_append_of_pos numeric, List.dropWhile_append_of_pos numeric, none.1, none.2,
    List.append_nil]
  exact ⟨rfl, rfl⟩

theorem someDigits_append (natural : IsNatural digits) (stops : Stops rest) :
    someDigits (digits ++ rest) = some (digits, rest) := by
  obtain ⟨taken, left⟩ := takeWhile_numeric natural.numeric stops
  rw [someDigits, taken, left, if_neg natural.some]

theorem optionalPart_none (marks signs : List UInt8)
    (other : ∀ c ∈ marks, c ≠ comma ∧ c ≠ 0x5d ∧ c ≠ 0x7d) (stops : Stops rest) :
    optionalPart marks signs rest = some ([], rest) := by
  cases rest with
  | nil => rfl
  | cons c more =>
      have outside : c ∉ marks := by
        intro mark
        obtain ⟨comma, bracket, brace⟩ := other c mark
        rcases stops c rfl with same | same | same
        · exact comma same
        · exact bracket same
        · exact brace same
      rw [optionalPart, if_neg outside]

theorem IsNatural.first (natural : IsNatural digits) :
    ∃ c more, digits = c :: more ∧ isNumeric c = true := by
  obtain ⟨c, more, same⟩ := List.exists_cons_of_ne_nil natural.some
  exact ⟨c, more, same, natural.numeric c (by simp [same])⟩

theorem numeric_facts {c : UInt8} (numeric : isNumeric c = true) :
    c ≠ 0x2d ∧ c ≠ quote ∧ c ≠ 0x7b ∧ c ≠ 0x5b ∧ c ≠ 0x5d ∧ isBlank c = false := by
  refine ⟨?_, ?_, ?_, ?_, ?_, ?_⟩
  case refine_6 =>
    simp only [isBlank, Bool.or_eq_false_iff, beq_eq_false_iff_ne]
    refine ⟨⟨⟨?_, ?_⟩, ?_⟩, ?_⟩
    all_goals
      rintro rfl
      cases numeric
  all_goals
    rintro rfl
    cases numeric

theorem number_tail (sign : List UInt8) (natural : IsNatural digits) (stops : Stops rest) :
    (do
      let (digits, rest) ← someDigits (digits ++ rest)
      if digits.headD 0 = 0x30 ∧ digits ≠ [0x30] then none
      else do
        let (fraction, rest) ← optionalPart [0x2e] [] rest
        let (exponent, rest) ← optionalPart [0x65, 0x45] [0x2b, 0x2d] rest
        some (Doc.number (sign ++ digits ++ fraction ++ exponent), rest)) =
      some (Doc.number (sign ++ digits), rest) := by
  have canonical : ¬ (digits.headD 0 = 0x30 ∧ digits ≠ [0x30]) := fun zero =>
    zero.2 (natural.canonical zero.1)
  have fraction := optionalPart_none [0x2e] [] (by simp [comma]) stops
  have exponent := optionalPart_none [0x65, 0x45] [0x2b, 0x2d] (by simp [comma]) stops
  simp only [someDigits_append natural stops, Option.bind_eq_bind, Option.bind_some,
    if_neg canonical, fraction, exponent, List.append_nil]

theorem number_append {text : List UInt8} (integer : IsInteger text) (stops : Stops rest) :
    number (text ++ rest) = some (.number text, rest) := by
  rcases integer with natural | ⟨digits, rfl, natural⟩
  · obtain ⟨c, more, same, numeric⟩ := natural.first
    have unsigned : ¬ (text ++ rest).headD 0 = 0x2d := by
      rw [same]
      exact (numeric_facts numeric).1
    simp only [number, if_neg unsigned, List.length_nil, List.drop_zero]
    exact number_tail [] natural stops
  · simp only [number, List.cons_append, List.headD_cons, if_true, List.length_singleton,
      List.drop_succ_cons, List.drop_zero]
    exact number_tail [0x2d] natural stops

theorem IsInteger.first {text : List UInt8} (integer : IsInteger text) :
    ∃ c more, text = c :: more ∧ (c = 0x2d ∨ isNumeric c = true) := by
  rcases integer with natural | ⟨digits, rfl, _⟩
  · obtain ⟨c, more, same, numeric⟩ := natural.first
    exact ⟨c, more, same, .inr numeric⟩
  · exact ⟨0x2d, digits, rfl, .inl rfl⟩

theorem scalar_integer {text : List UInt8} (integer : IsInteger text) (stops : Stops rest) :
    scalar (text ++ rest) = some (.number text, rest) := by
  have none : literals.find? (fun l => l.1.isPrefixOf (text ++ rest)) = none := by
    obtain ⟨c, more, same, first⟩ := integer.first
    have letter : ∀ a, a = 0x6e ∨ a = 0x74 ∨ a = 0x66 → (a == c) = false := by
      rintro a word
      rw [beq_eq_false_iff_ne]
      rintro rfl
      rcases first with first | first
      · rcases word with rfl | rfl | rfl <;> cases first
      · rcases word with rfl | rfl | rfl <;> cases first
    rw [same]
    simp [literals, List.isPrefixOf, letter]
  rw [scalar, none]
  exact number_append integer stops

end Numbers

section Values

def Reads (doc : Doc) : Prop :=
  ∀ fuel rest, doc.print.length ≤ fuel → Stops rest →
    value fuel (doc.print ++ rest) = some (doc, rest)

theorem Printable.first {doc : Doc} (printable : Printable doc) :
    ∃ c more, doc.print = c :: more ∧ isBlank c = false ∧ c ≠ 0x5d := by
  cases printable with
  | null => exact ⟨_, _, rfl, rfl, by decide⟩
  | bool b => cases b <;> exact ⟨_, _, rfl, rfl, by decide⟩
  | number integer =>
      obtain ⟨c, more, same, minus | numeric⟩ := integer.first
      · exact ⟨c, more, same, minus ▸ rfl, minus ▸ by decide⟩
      · exact ⟨c, more, same, (numeric_facts numeric).2.2.2.2.2,
          (numeric_facts numeric).2.2.2.2.1⟩
  | string plain => exact ⟨_, _, rfl, rfl, by decide⟩
  | @array items each => cases items <;> exact ⟨_, _, rfl, rfl, by decide⟩
  | @object members keys each => cases members <;> exact ⟨_, _, rfl, rfl, by decide⟩

theorem printItems_stops (items : List Doc) (rest : List UInt8) :
    Stops (printItems items ++ rest) ∧ 0 < (printItems items).length := by
  cases items with
  | nil => exact ⟨stops_bracket rest, Nat.succ_pos _⟩
  | cons item more => exact ⟨stops_comma _, Nat.succ_pos _⟩

theorem printMembers_stops (members : List (List UInt8 × Doc)) (rest : List UInt8) :
    Stops (printMembers members ++ rest) ∧ 0 < (printMembers members).length := by
  cases members with
  | nil => exact ⟨stops_brace rest, Nat.succ_pos _⟩
  | cons member more => exact ⟨stops_comma _, Nat.succ_pos _⟩

theorem afterItem_bracket {α : Type} (more : List UInt8 → Option (List α × List UInt8)) (item : α)
    (rest : List UInt8) : afterItem 0x5d more item (0x5d :: rest) = some ([item], rest) := by
  rw [afterItem, skipBlanks_cons (by decide)]
  exact if_neg (by decide)

/-- The induction is on the items behind the first. -/
theorem elements_print (more : List Doc) : ∀ (item : Doc) (fuel : Nat) (rest : List UInt8),
    (∀ d ∈ item :: more, Reads d) → item.print.length + (printItems more).length ≤ fuel →
    elements fuel (item.print ++ (printItems more ++ rest)) = some (item :: more, rest) := by
  induction more with
  | nil =>
      intro item fuel rest reads enough
      obtain ⟨fuel, rfl⟩ :=
        Nat.exists_eq_add_of_le' (show 1 ≤ fuel from Nat.le_of_add_left_le enough)
      have first := reads item List.mem_cons_self fuel _ (Nat.le_of_succ_le_succ enough)
        (printItems_stops [] rest).1
      simp only [elements, first, Option.bind_eq_bind, Option.bind_some]
      exact afterItem_bracket _ _ _
  | cons next more ih =>
      intro item fuel rest reads enough
      have size : (printItems (next :: more)).length =
          next.print.length + (printItems more).length + 1 := by
        simp [printItems]
      obtain ⟨fuel, rfl⟩ := Nat.exists_eq_add_of_le' (show 1 ≤ fuel by omega)
      have first := reads item List.mem_cons_self fuel _ (by omega)
        (printItems_stops (next :: more) rest).1
      have others := ih next fuel rest (fun d member => reads d (List.mem_cons_of_mem _ member))
        (by omega)
      simp only [elements, first, Option.bind_eq_bind, Option.bind_some]
      rw [printItems, List.cons_append, List.append_assoc, afterItem_comma, others]
      rfl

theorem printMember_append (key : List UInt8) (doc : Doc) (rest : List UInt8) :
    printMember (key, doc) ++ rest = field key (doc.print ++ rest) := by
  simp [printMember, field, quoted]

theorem members_print (more : List (List UInt8 × Doc)) :
    ∀ (member : List UInt8 × Doc) (fuel : Nat) (rest : List UInt8),
    (∀ m ∈ member :: more, (∀ b ∈ m.1, IsPlain b) ∧ Reads m.2) →
    (printMember member).length + (printMembers more).length ≤ fuel →
    members fuel (printMember member ++ (printMembers more ++ rest)) =
      some (member :: more, rest) := by
  induction more with
  | nil =>
      rintro ⟨key, doc⟩ fuel rest reads enough
      have size : (printMember (key, doc)).length = key.length + doc.print.length + 3 := by
        simp [printMember, field, quoted]
        omega
      obtain ⟨fuel, rfl⟩ := Nat.exists_eq_add_of_le' (show 1 ≤ fuel by omega)
      obtain ⟨plain, (readsDoc : Reads doc)⟩ := reads (key, doc) List.mem_cons_self
      have first := readsDoc fuel _ (by omega) (printMembers_stops [] rest).1
      rw [printMember_append, members_field plain, first, Option.bind_some]
      exact afterItem_brace _ _ _
  | cons next more ih =>
      rintro ⟨key, doc⟩ fuel rest reads enough
      have size : (printMember (key, doc)).length = key.length + doc.print.length + 3 := by
        simp [printMember, field, quoted]
        omega
      have sizes : (printMembers (next :: more)).length =
          (printMember next).length + (printMembers more).length + 1 := by
        simp [printMembers]
      obtain ⟨fuel, rfl⟩ := Nat.exists_eq_add_of_le' (show 1 ≤ fuel by omega)
      obtain ⟨plain, (readsDoc : Reads doc)⟩ := reads (key, doc) List.mem_cons_self
      have first := readsDoc fuel _ (by omega) (printMembers_stops (next :: more) rest).1
      have others := ih next fuel rest (fun m member => reads m (List.mem_cons_of_mem _ member))
        (by omega)
      rw [printMember_append, members_field plain, first, Option.bind_some, printMembers,
        List.cons_append, List.append_assoc, afterItem_comma, others]
      rfl

theorem expect_ne {b c : UInt8} (visible : isBlank c = false) (other : c ≠ b) (rest : List UInt8) :
    expect b (c :: rest) = none := by
  rw [expect, skipBlanks_cons visible]
  exact if_neg other

theorem value_bracket (fuel : Nat) {c : UInt8} (visible : isBlank c = false) (other : c ≠ 0x5d)
    (text : List UInt8) :
    value (fuel + 1) (0x5b :: c :: text) =
      (elements fuel (c :: text)).map (fun e => (.array e.1, e.2)) := by
  rw [value, skipBlanks_cons (by decide)]
  simp only [expect_ne visible other]
  rfl

def BeginsScalar (c : UInt8) : Prop := isBlank c = false ∧ c ≠ quote ∧ c ≠ 0x7b ∧ c ≠ 0x5b

instance (c : UInt8) : Decidable (BeginsScalar c) := inferInstanceAs (Decidable (_ ∧ _))

theorem reads_scalar {doc : Doc} (c : UInt8) (more : List UInt8) (same : doc.print = c :: more)
    (begins : BeginsScalar c)
    (read : ∀ rest, Stops rest → scalar (doc.print ++ rest) = some (doc, rest)) : Reads doc := by
  intro fuel rest enough stops
  obtain ⟨visible, unquoted, unbraced, unbracketed⟩ := begins
  have size : doc.print.length = more.length + 1 := by rw [same, List.length_cons]
  obtain ⟨fuel, rfl⟩ := Nat.exists_eq_add_of_le' (show 1 ≤ fuel by omega)
  have scanned := read rest stops
  rw [same, List.cons_append] at scanned ⊢
  rw [value, skipBlanks_cons visible]
  simp only [if_neg unquoted, if_neg unbraced, if_neg unbracketed]
  exact scanned

theorem reads_string {text : List UInt8} (plain : ∀ b ∈ text, IsPlain b) :
    Reads (.string text) := by
  intro fuel rest enough _
  have size : (Doc.string text).print.length = text.length + 2 := by simp [Doc.print, quoted]
  have same : (Doc.string text).print ++ rest = quote :: (text ++ quote :: rest) := by
    simp [Doc.print, quoted]
  obtain ⟨fuel, rfl⟩ := Nat.exists_eq_add_of_le' (show 1 ≤ fuel by omega)
  rw [same, value_quote, stringBody_plain plain]
  rfl

theorem reads_array {items : List Doc} (each : ∀ d ∈ items, Printable d)
    (reads : ∀ d ∈ items, Reads d) : Reads (.array items) := by
  intro fuel rest enough _
  cases items with
  | nil =>
      have size : (Doc.array []).print.length = 2 := rfl
      obtain ⟨fuel, rfl⟩ := Nat.exists_eq_add_of_le' (show 1 ≤ fuel by omega)
      rfl
  | cons item more =>
      have size : (Doc.array (item :: more)).print.length =
          item.print.length + (printItems more).length + 1 := by
        simp [Doc.print]
      obtain ⟨fuel, rfl⟩ := Nat.exists_eq_add_of_le' (show 1 ≤ fuel by omega)
      obtain ⟨c, text, same, visible, other⟩ := (each item List.mem_cons_self).first
      have read := elements_print more item fuel rest reads (by omega)
      rw [Doc.print, List.cons_append, List.append_assoc]
      rw [same, List.cons_append] at read ⊢
      rw [value_bracket fuel visible other, read]
      rfl

theorem reads_object {members : List (List UInt8 × Doc)}
    (keys : ∀ m ∈ members, ∀ b ∈ m.1, IsPlain b) (reads : ∀ m ∈ members, Reads m.2) :
    Reads (.object members) := by
  intro fuel rest enough _
  cases members with
  | nil =>
      have size : (Doc.object []).print.length = 2 := rfl
      obtain ⟨fuel, rfl⟩ := Nat.exists_eq_add_of_le' (show 1 ≤ fuel by omega)
      rfl
  | cons member more =>
      obtain ⟨key, doc⟩ := member
      have size : (Doc.object ((key, doc) :: more)).print.length =
          (printMember (key, doc)).length + (printMembers more).length + 1 := by
        simp [Doc.print]
      obtain ⟨fuel, rfl⟩ := Nat.exists_eq_add_of_le' (show 1 ≤ fuel by omega)
      have read := members_print more (key, doc) fuel rest
        (fun m among => ⟨keys m among, reads m among⟩) (by omega)
      rw [Doc.print, List.cons_append, List.append_assoc]
      rw [printMember_append] at read ⊢
      rw [value_object, read]
      rfl

theorem Printable.reads {doc : Doc} (printable : Printable doc) : Reads doc := by
  induction printable with
  | null => exact reads_scalar 0x6e _ rfl (by decide) (fun _ _ => rfl)
  | bool b =>
      cases b with
      | false => exact reads_scalar 0x66 _ rfl (by decide) (fun _ _ => rfl)
      | true => exact reads_scalar 0x74 _ rfl (by decide) (fun _ _ => rfl)
  | number integer =>
      obtain ⟨c, more, same, first⟩ := integer.first
      have begins : BeginsScalar c := by
        rcases first with rfl | numeric
        · decide
        · obtain ⟨_, unquoted, unbraced, unbracketed, _, visible⟩ := numeric_facts numeric
          exact ⟨visible, unquoted, unbraced, unbracketed⟩
      exact reads_scalar c more same begins (fun rest stops => scalar_integer integer stops)
  | string plain => exact reads_string plain
  | array each ih => exact reads_array each ih
  | object keys _ ih => exact reads_object keys ih

theorem parse_print {doc : Doc} (printable : Printable doc) : parse doc.print = some doc := by
  have read := printable.reads (doc.print.length + 1) [] (Nat.le_succ _) stops_nil
  rw [List.append_nil] at read
  rw [parse, read]
  rfl

end Values

section Lines

def Visible (text : List UInt8) : Prop := ∀ b ∈ text, 0x20 ≤ b

theorem visible_cons {b : UInt8} {text : List UInt8} (first : 0x20 ≤ b) (others : Visible text) :
    Visible (b :: text) :=
  List.forall_mem_cons.mpr ⟨first, others⟩

theorem visible_append {first second : List UInt8} (early : Visible first)
    (late : Visible second) : Visible (first ++ second) :=
  List.forall_mem_append.mpr ⟨early, late⟩

theorem visible_plain {text : List UInt8} (plain : ∀ b ∈ text, IsPlain b) : Visible text :=
  fun b among => (plain b among).2.2

theorem visible_quoted {text rest : List UInt8} (plain : ∀ b ∈ text, IsPlain b)
    (others : Visible rest) : Visible (quoted text rest) :=
  have mark : (0x20 : UInt8) ≤ quote := by decide
  visible_cons mark (visible_append (visible_plain plain) (visible_cons mark others))

theorem visible_integer {text : List UInt8} (integer : IsInteger text) : Visible text := by
  have digit : ∀ {b : UInt8}, isNumeric b = true → 0x20 ≤ b := by
    intro b numeric
    simp only [isNumeric, Bool.and_eq_true, decide_eq_true_eq] at numeric
    exact UInt8.le_trans (by decide) numeric.1
  rcases integer with natural | ⟨digits, rfl, natural⟩
  · exact fun b among => digit (natural.numeric b among)
  · exact visible_cons (by decide) (fun b among => digit (natural.numeric b among))

theorem visible_printItems (items : List Doc) (each : ∀ d ∈ items, Visible d.print) :
    Visible (printItems items) := by
  induction items with
  | nil => exact visible_cons (by decide) (fun _ impossible => by cases impossible)
  | cons item more ih =>
      obtain ⟨first, others⟩ := List.forall_mem_cons.mp each
      exact visible_cons (by decide) (visible_append first (ih others))

theorem visible_printMembers (members : List (List UInt8 × Doc))
    (each : ∀ m ∈ members, Visible (printMember m)) : Visible (printMembers members) := by
  induction members with
  | nil => exact visible_cons (by decide) (fun _ impossible => by cases impossible)
  | cons member more ih =>
      obtain ⟨first, others⟩ := List.forall_mem_cons.mp each
      exact visible_cons (by decide) (visible_append first (ih others))

theorem Printable.visible {doc : Doc} (printable : Printable doc) : Visible doc.print := by
  induction printable with
  | null => exact visible_plain (plain_of_allPlain rfl)
  | bool b =>
      cases b with
      | false | true => exact visible_plain (plain_of_allPlain rfl)
  | number integer => exact visible_integer integer
  | string plain => exact visible_quoted plain (fun _ impossible => by cases impossible)
  | @array items each ih =>
      cases items with
      | nil => exact visible_plain (plain_of_allPlain rfl)
      | cons item more =>
          obtain ⟨first, others⟩ := List.forall_mem_cons.mp ih
          exact visible_cons (by decide)
            (visible_append first (visible_printItems more others))
  | @object members keys each ih =>
      have printed : ∀ m ∈ members, Visible (printMember m) := by
        rintro ⟨key, doc⟩ among
        have mark : (0x20 : UInt8) ≤ colon := by decide
        exact visible_quoted (keys _ among) (visible_cons mark (ih _ among))
      cases members with
      | nil => exact visible_plain (plain_of_allPlain rfl)
      | cons member more =>
          obtain ⟨first, others⟩ := List.forall_mem_cons.mp printed
          exact visible_cons (by decide)
            (visible_append first (visible_printMembers more others))

end Lines

end Foundations.JsonText
