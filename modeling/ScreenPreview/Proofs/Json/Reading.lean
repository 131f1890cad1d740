import Mathlib.Data.List.Forall2
import ScreenPreview.Proofs.Json.Numerals
import ScreenPreview.Proofs.Json.Quoted
import ScreenPreview.Proofs.Json.Records
import ScreenPreview.Proofs.Json.RoundTrip

/-!
What the reader accepts is what the grammar spells.

A text has a value exactly if it spells a tree that has one within the bound on the nesting, and
then it is that (`readWithin_eq_some_iff`). In one direction a tree is built for what the reader has
taken; in the other the reader takes a spelled text whole and leaves at most some blanks of it, if
nothing goes on with its last number.
-/
namespace ScreenPreview.Json

variable {cs rest : List Char} {j : Json}

/-! ### Blanks -/

theorem blank_iff {blank : List Char} : Blank blank ↔ ∀ c ∈ blank, isSpace c = true := by
  refine forall₂_congr fun c _ => ?_
  simp [isSpace, or_assoc]

theorem Blank.append {front back : List Char} (before : Blank front) (behind : Blank back) :
    Blank (front ++ back) := by
  intro c member
  exact (List.mem_append.mp member).elim (before c) (behind c)

theorem skip_blank {blank : List Char} (blanks : Blank blank) (cs : List Char) :
    skip (blank ++ cs) = skip cs := List.dropWhile_append_of_pos (blank_iff.mp blanks)

theorem exists_blank (cs : List Char) : ∃ blank, Blank blank ∧ cs = blank ++ skip cs :=
  ⟨cs.takeWhile isSpace, blank_iff.mpr fun _ => List.mem_takeWhile_imp,
    List.takeWhile_append_dropWhile.symm⟩

theorem Blank.ends {blank : List Char} (blanks : Blank blank) (ends : Ends rest) :
    Ends (blank ++ rest) := by
  cases blank with
  | nil => exact ends
  | cons c blank =>
    rintro d ⟨⟩
    rcases blanks c List.mem_cons_self with rfl | rfl | rfl | rfl <;> decide

theorem blank_nil : Blank [] := by simp [Blank]

theorem Spells.blank_append {front : List Char} {t : Tree} (blanks : Blank front)
    (spells : Spells cs t) : Spells (front ++ cs) t := by
  have padded := spells.padded blanks blank_nil
  rwa [List.append_nil] at padded

theorem Spells.append_blank {back : List Char} {t : Tree} (spells : Spells cs t)
    (blanks : Blank back) : Spells (cs ++ back) t := spells.padded blank_nil blanks

/-! ### Trees of what is read -/

theorem literal_sound {word : List Char} {k : Json} (taken : literal word k cs = some (j, rest)) :
    cs = word ++ rest ∧ k = j := by
  unfold literal at taken
  split at taken
  · next same =>
    cases taken
    refine ⟨?_, rfl⟩
    conv_lhs => rw [← List.take_append_drop word.length cs, same]
  · cases taken

theorem scalar_sound (taken : scalar cs = some (j, rest)) :
    ∃ front t, cs = front ++ rest ∧ Spells front t ∧ ∀ depth, t.value? depth = some j := by
  unfold scalar at taken
  split at taken
  · obtain ⟨same, rfl⟩ := literal_sound taken
    exact ⟨_, .null, same, .null, fun _ => by simp [Tree.value?]⟩
  · obtain ⟨same, rfl⟩ := literal_sound taken
    exact ⟨_, .bool true, same, .true, fun _ => by simp [Tree.value?]⟩
  · obtain ⟨same, rfl⟩ := literal_sound taken
    exact ⟨_, .bool false, same, .false, fun _ => by simp [Tree.value?]⟩
  · next cs =>
    obtain ⟨⟨s, left⟩, string, same⟩ := Option.map_eq_some_iff.mp taken
    cases same
    obtain ⟨body, ds, rfl, quotes, rfl⟩ := quotes_of_stringRest string
    exact ⟨'\x22' :: (body ++ ['\x22']), _, by simp, .text quotes, fun _ => by simp [Tree.value?]⟩
  · obtain ⟨n, wellFormed, rfl, value⟩ := number_sound taken
    exact ⟨_, _, rfl, .number wellFormed, fun _ => by simp [Tree.value?, value]⟩

theorem mapM_cons_eq_some_iff {α β : Type} {f : α → Option β} {x : α} {xs : List α} {ys : List β} :
    (x :: xs).mapM f = some ys ↔ ∃ y zs, f x = some y ∧ xs.mapM f = some zs ∧ ys = y :: zs := by
  rw [List.mapM_cons]
  cases f x <;> cases xs.mapM f <;> simp [eq_comm]

/-- A reader takes texts that spell trees, with the values they have by `v`. -/
def Sound (item : List Char → Option (Json × List Char)) (v : Tree → Option Json) : Prop :=
  ∀ cs x rest, item cs = some (x, rest) →
    ∃ front t, cs = front ++ rest ∧ Spells front t ∧ v t = some x

variable {item : List Char → Option (Json × List Char)} {v : Tree → Option Json}

theorem joined_cons {part : List Char} {parts : List (List Char)} (more : parts ≠ []) :
    joined (part :: parts) = part ++ ',' :: joined parts := by
  cases parts with
  | nil => exact absurd rfl more
  | cons next parts => rfl

theorem items_sound (sound : Sound item v) {bound : Nat} {read xs : List Json}
    (taken : items item bound read cs = some (xs, rest)) :
    ∃ parts : List (List Char × Tree), parts ≠ [] ∧
      cs = joined (parts.map Prod.fst) ++ ']' :: rest ∧ (∀ p ∈ parts, Spells p.1 p.2) ∧
      ∃ js, (parts.map Prod.snd).mapM v = some js ∧ xs = read.reverse ++ js := by
  fun_induction items item bound read cs with
  | case1 => cases taken
  | case2 => cases taken
  | case3 bound read cs x left first behind comma ih =>
    obtain ⟨front, t, rfl, spells, value⟩ := sound _ _ _ first
    obtain ⟨blank, blanks, same⟩ := exists_blank left
    obtain ⟨parts, some_part, rfl, each, js, values, rfl⟩ := ih taken
    rw [comma] at same
    refine ⟨(front ++ blank, t) :: parts, List.cons_ne_nil _ _, ?_, ?_, x :: js, ?_, ?_⟩
    · rw [List.map_cons, joined_cons (by simpa using some_part), same]
      simp
    · exact List.forall_mem_cons.mpr ⟨spells.append_blank blanks, each⟩
    · rw [List.map_cons]
      exact mapM_cons_eq_some_iff.mpr ⟨x, js, value, values, rfl⟩
    · simp
  | case4 bound read cs x left first behind bracket =>
    cases taken
    obtain ⟨front, t, rfl, spells, value⟩ := sound _ _ _ first
    obtain ⟨blank, blanks, same⟩ := exists_blank left
    rw [bracket] at same
    refine ⟨[(front ++ blank, t)], List.cons_ne_nil _ _, ?_, ?_, [x], ?_, ?_⟩
    · simp [joined, same]
    · exact List.forall_mem_cons.mpr ⟨spells.append_blank blanks, by simp⟩
    · exact mapM_cons_eq_some_iff.mpr ⟨x, [], value, rfl, rfl⟩
    · simp
  | case5 => cases taken

def memberValue? (v : Tree → Option Json) (m : String × Tree) : Option (String × Json) :=
  (v m.2).map (m.1, ·)

theorem member_sound (sound : Sound item v) {key : String} {x : Json}
    {cs inside behind after left : List Char} (quote : skip cs = '\x22' :: inside)
    (named : stringRest [] inside = some (key, behind)) (colon : skip behind = ':' :: after)
    (first : item after = some (x, left)) :
    ∃ m : Member, cs = m.chars ++ skip left ∧ m.WellFormed ∧ Spells m.spelled m.value ∧
      memberValue? v m.entry = some (key, x) := by
  obtain ⟨front, fronts, same⟩ := exists_blank cs
  obtain ⟨body, ds, rfl, quotes, rfl⟩ := quotes_of_stringRest named
  obtain ⟨gap, gaps, same_behind⟩ := exists_blank behind
  obtain ⟨spelled, t, rfl, spells, value⟩ := sound _ _ _ first
  obtain ⟨back, backs, same_left⟩ := exists_blank left
  refine ⟨⟨front, body, gap, spelled ++ back, ds, t⟩, ?_, ⟨fronts, gaps, quotes⟩,
    spells.append_blank backs, ?_⟩
  · rw [colon] at same_behind
    rw [same, quote, same_behind, Member.chars]
    conv_lhs => rw [same_left]
    simp
  · simp [memberValue?, Member.entry, value]

theorem members_sound (sound : Sound item v) {bound : Nat} {read ms : List (String × Json)}
    (taken : members item bound read cs = some (ms, rest)) :
    ∃ parts : List Member, parts ≠ [] ∧
      cs = joined (parts.map Member.chars) ++ '\x7d' :: rest ∧
      (∀ m ∈ parts, m.WellFormed) ∧ (∀ m ∈ parts, Spells m.spelled m.value) ∧
      ∃ js, (parts.map Member.entry).mapM (memberValue? v) = some js ∧ ms = read.reverse ++ js := by
  fun_induction members item bound read cs with
  | case1 => cases taken
  | case2 => cases taken
  | case3 => cases taken
  | case4 bound read cs inside quote key behind named after colon x left first next comma ih =>
    obtain ⟨m, same, wellFormed, spells, value⟩ := member_sound sound quote named colon first
    obtain ⟨parts, some_part, rfl, allWell, each, js, values, rfl⟩ := ih taken
    rw [comma] at same
    refine ⟨m :: parts, List.cons_ne_nil _ _, ?_, List.forall_mem_cons.mpr ⟨wellFormed, allWell⟩,
      List.forall_mem_cons.mpr ⟨spells, each⟩, (key, x) :: js, ?_, ?_⟩
    · rw [List.map_cons, joined_cons (by simpa using some_part), same]
      simp
    · rw [List.map_cons]
      exact mapM_cons_eq_some_iff.mpr ⟨_, js, value, values, rfl⟩
    · simp
  | case5 bound read cs inside quote key behind named after colon x left first next brace =>
    cases taken
    obtain ⟨m, same, wellFormed, spells, value⟩ := member_sound sound quote named colon first
    rw [brace] at same
    refine ⟨[m], List.cons_ne_nil _ _, same, List.forall_mem_cons.mpr ⟨wellFormed, by simp⟩,
      List.forall_mem_cons.mpr ⟨spells, by simp⟩, [(key, x)], ?_, ?_⟩
    · exact mapM_cons_eq_some_iff.mpr ⟨_, [], value, rfl, rfl⟩
    · simp
  | case6 => cases taken
  | case7 => cases taken
  | case8 => cases taken

theorem sound_of_skip (taken : ∀ cs x rest, item cs = some (x, rest) →
    ∃ front t, skip cs = front ++ rest ∧ Spells front t ∧ v t = some x) : Sound item v := by
  intro cs x rest read
  obtain ⟨blank, blanks, same⟩ := exists_blank cs
  obtain ⟨front, t, behind, spells, value⟩ := taken cs x rest read
  refine ⟨blank ++ front, t, ?_, spells.blank_append blanks, value⟩
  rw [List.append_assoc, ← behind]
  exact same

theorem value_sound (depth : Nat) : Sound (value depth) (Tree.value? depth) := by
  induction depth with
  | zero =>
    refine sound_of_skip fun cs j rest taken => ?_
    obtain ⟨front, t, behind, spells, stands⟩ := scalar_sound taken
    exact ⟨front, t, behind, spells, stands 0⟩
  | succ depth sound =>
    refine sound_of_skip fun cs j rest taken => ?_
    unfold value at taken
    split at taken
    · next inside opened =>
      obtain ⟨blank, blanks, same⟩ := exists_blank inside
      rw [opened]
      split at taken
      · next left closed =>
        cases taken
        rw [closed] at same
        exact ⟨'[' :: (blank ++ [']']), _, by simp [same], .emptyList blanks,
          by simp [Tree.value?]⟩
      · obtain ⟨⟨xs, left⟩, read, made⟩ := Option.map_eq_some_iff.mp taken
        cases made
        obtain ⟨parts, some_part, whole, each, js, values, listed⟩ := items_sound sound read
        refine ⟨_, _, ?_, .list some_part each, ?_⟩
        · simp [whole]
        · rw [Tree.value?, values, listed]
          rfl
    · next inside opened =>
      obtain ⟨blank, blanks, same⟩ := exists_blank inside
      rw [opened]
      split at taken
      · next left closed =>
        cases taken
        rw [closed] at same
        exact ⟨'\x7b' :: (blank ++ ['\x7d']), _, by simp [same], .emptyObject blanks,
          by simp [Tree.value?, record]⟩
      · obtain ⟨⟨ms, left⟩, read, made⟩ := Option.map_eq_some_iff.mp taken
        cases made
        obtain ⟨parts, some_part, whole, allWell, each, js, values, listed⟩ :=
          members_sound sound read
        refine ⟨_, _, ?_, .object some_part allWell each, ?_⟩
        · simp [whole]
        · rw [Tree.value?]
          have named : (fun m : String × Tree => (Tree.value? depth m.2).map (m.1, ·)) =
              memberValue? (Tree.value? depth) := rfl
          rw [named, values, listed]
          rfl
    · obtain ⟨front, t, behind, spells, stands⟩ := scalar_sound taken
      exact ⟨front, t, behind, spells, stands (depth + 1)⟩

/-! ### What is spelled is taken -/

theorem ends_cons {c : Char} (plain : c.isDigit = false ∧ c ≠ '.' ∧ c ≠ 'e' ∧ c ≠ 'E')
    (rest : List Char) : Ends (c :: rest) := by
  rintro d ⟨⟩
  exact plain

/-- A reader takes a text with the value of a tree, up to some blanks. -/
def Takes (item : List Char → Option (Json × List Char)) (v : Tree → Option Json)
    (cs : List Char) (t : Tree) : Prop :=
  ∀ j rest, v t = some j → Ends rest →
    ∃ blank, Blank blank ∧ item (cs ++ rest) = some (j, blank ++ rest)

theorem Takes.next {t : Tree} (takes : Takes item v cs t) (value : v t = some j) {c : Char}
    (plain : c.isDigit = false ∧ c ≠ '.' ∧ c ≠ 'e' ∧ c ≠ 'E') (no_space : isSpace c = false)
    (rest : List Char) :
    ∃ left, item (cs ++ c :: rest) = some (j, left) ∧ skip left = c :: rest := by
  obtain ⟨blank, blanks, taken⟩ := takes j (c :: rest) value (ends_cons plain rest)
  exact ⟨_, taken, (skip_blank blanks _).trans (skip_cons no_space rest)⟩

theorem items_eq {parts : List (List Char × Tree)} (some_part : parts ≠ [])
    (takes : ∀ p ∈ parts, Takes item v p.1 p.2) {js : List Json}
    (values : (parts.map Prod.snd).mapM v = some js) {bound : Nat} (room : parts.length ≤ bound)
    (read : List Json) (rest : List Char) :
    items item bound read (joined (parts.map Prod.fst) ++ ']' :: rest) =
      some (read.reverse ++ js, rest) := by
  induction parts generalizing js bound read with
  | nil => exact absurd rfl some_part
  | cons p parts ih =>
    obtain ⟨bound, rfl⟩ : ∃ b, bound = b + 1 := Nat.exists_eq_add_one.mpr (by
      rw [List.length_cons] at room
      omega)
    rw [List.map_cons] at values
    obtain ⟨x, xs, value, remaining, rfl⟩ := mapM_cons_eq_some_iff.mp values
    obtain ⟨first, others⟩ := List.forall_mem_cons.mp takes
    by_cases last : parts = []
    · subst last
      cases remaining
      obtain ⟨left, taken, behind⟩ := first.next value (c := ']') (by decide) (by decide) rest
      rw [List.map_cons, List.map_nil, joined, items, taken]
      simp [behind]
    · obtain ⟨left, taken, behind⟩ := first.next value (c := ',') (by decide) (by decide)
        (joined (parts.map Prod.fst) ++ ']' :: rest)
      have more := ih last others remaining (Nat.le_of_succ_le_succ room) (x :: read)
      rw [List.map_cons, joined_cons (by simpa using last), List.append_assoc, List.cons_append,
        items, taken]
      simp [behind, more]

section

variable {m : Member} {tail : List Char} {bound : Nat} {read : List (String × Json)} {x : Json}
  {left : List Char}

theorem skip_member (wellFormed : m.WellFormed) (tail : List Char) : skip (m.chars ++ tail) =
    '\x22' :: (m.body ++ '\x22' :: (m.gap ++ ':' :: (m.spelled ++ tail))) := by
  rw [Member.chars, List.append_assoc, skip_blank wellFormed.front, List.cons_append,
    skip_cons (by decide)]
  simp

theorem skip_gap (wellFormed : m.WellFormed) (tail : List Char) :
    skip (m.gap ++ ':' :: (m.spelled ++ tail)) = ':' :: (m.spelled ++ tail) := by
  rw [skip_blank wellFormed.gap, skip_cons (by decide)]

theorem members_refused (wellFormed : m.WellFormed) (refused : item (m.spelled ++ tail) = none) :
    members item bound read (m.chars ++ tail) = none := by
  cases bound with
  | zero => rw [members]
  | succ bound =>
    rw [members, skip_member wellFormed]
    simp only [wellFormed.key.stringRest_eq, skip_gap wellFormed, refused]

theorem members_comma (wellFormed : m.WellFormed)
    (taken : item (m.spelled ++ tail) = some (x, left)) (comma : skip left = ',' :: rest) :
    members item (bound + 1) read (m.chars ++ tail) =
      members item bound ((String.ofList m.key, x) :: read) rest := by
  rw [members, skip_member wellFormed]
  simp only [wellFormed.key.stringRest_eq, skip_gap wellFormed, taken, comma, List.reverse_nil,
    List.nil_append]

theorem members_brace (wellFormed : m.WellFormed)
    (taken : item (m.spelled ++ tail) = some (x, left)) (brace : skip left = '\x7d' :: rest) :
    members item (bound + 1) read (m.chars ++ tail) =
      some (((String.ofList m.key, x) :: read).reverse, rest) := by
  rw [members, skip_member wellFormed]
  simp only [wellFormed.key.stringRest_eq, skip_gap wellFormed, taken, brace, List.reverse_nil,
    List.nil_append]

end

theorem members_eq {parts : List Member} (some_part : parts ≠ [])
    (wellFormed : ∀ m ∈ parts, m.WellFormed)
    (takes : ∀ m ∈ parts, Takes item v m.spelled m.value) {js : List (String × Json)}
    (values : (parts.map Member.entry).mapM (memberValue? v) = some js) {bound : Nat}
    (room : parts.length ≤ bound) (read : List (String × Json)) (rest : List Char) :
    members item bound read (joined (parts.map Member.chars) ++ '\x7d' :: rest) =
      some (read.reverse ++ js, rest) := by
  induction parts generalizing js bound read with
  | nil => exact absurd rfl some_part
  | cons m parts ih =>
    obtain ⟨bound, rfl⟩ : ∃ b, bound = b + 1 := Nat.exists_eq_add_one.mpr (by
      rw [List.length_cons] at room
      omega)
    rw [List.map_cons] at values
    obtain ⟨entry, js, value, remaining, rfl⟩ := mapM_cons_eq_some_iff.mp values
    obtain ⟨first, others⟩ := List.forall_mem_cons.mp takes
    obtain ⟨well, allWell⟩ := List.forall_mem_cons.mp wellFormed
    obtain ⟨x, stands, rfl⟩ := Option.map_eq_some_iff.mp value
    by_cases last : parts = []
    · subst last
      cases remaining
      obtain ⟨left, taken, behind⟩ := first.next stands (c := '\x7d') (by decide) (by decide) rest
      rw [List.map_cons, List.map_nil, joined, members_brace well taken behind]
      simp [Member.entry]
    · obtain ⟨left, taken, behind⟩ := first.next stands (c := ',') (by decide) (by decide)
        (joined (parts.map Member.chars) ++ '\x7d' :: rest)
      have more := ih last allWell others remaining (Nat.le_of_succ_le_succ room)
        ((String.ofList m.key, x) :: read)
      rw [List.map_cons, joined_cons (by simpa using last), List.append_assoc, List.cons_append,
        members_comma well taken behind, more]
      simp [Member.entry]

/-! ### Values -/

variable {t : Tree} {depth : Nat}

theorem value_blank {blank : List Char} (blanks : Blank blank) (cs : List Char) :
    value depth (blank ++ cs) = value depth cs := by
  cases depth with
  | zero => rw [value, value, skip_blank blanks]
  | succ depth => rw [value, value, skip_blank blanks]

theorem exists_numeral {n : Numeral} (wellFormed : n.WellFormed) :
    ∃ c cs, n.chars = c :: cs ∧ (c = '-' ∨ c.isDigit = true) := by
  obtain ⟨c, ds, whole⟩ := List.exists_cons_of_ne_nil wellFormed.whole.1
  have first := wellFormed.whole.2 c (by simp [whole])
  cases sign : n.negative with
  | true =>
    refine ⟨'-', n.whole ++ n.tailChars, ?_, Or.inl rfl⟩
    simp [Numeral.chars, Numeral.tailChars, sign]
  | false =>
    refine ⟨c, ds ++ n.tailChars, ?_, Or.inr first⟩
    simp [Numeral.chars, Numeral.tailChars, sign, whole]

theorem value_number {c : Char} (opens : c = '-' ∨ c.isDigit = true) (cs : List Char) :
    value depth (c :: cs) = number (c :: cs) := by
  have other : isSpace c = false ∧ c ∉ ['[', '\x7b', 'n', 't', 'f', '\x22'] := by
    rcases opens with rfl | digit
    · decide
    · refine ⟨?_, ?_⟩
      · rw [isSpace, ← Bool.not_eq_true]
        intro space
        simp only [Bool.or_eq_true, beq_iff_eq] at space
        rcases space with ((rfl | rfl) | rfl) | rfl <;> cases digit
      · intro member
        simp only [List.mem_cons, List.not_mem_nil, or_false] at member
        rcases member with rfl | rfl | rfl | rfl | rfl | rfl <;> cases digit
  obtain ⟨no_space, other⟩ := other
  simp only [List.mem_cons, List.not_mem_nil, or_false, not_or] at other
  rw [value_of_scalar no_space other.1 other.2.1, scalar] <;> simp_all

theorem takes_scalar {c : Char} (opens : isSpace c = false ∧ c ≠ '[' ∧ c ≠ '\x7b')
    (stands : t.value? depth = some j)
    (read : ∀ rest, scalar (c :: (cs ++ rest)) = some (j, rest)) :
    Takes (value depth) (Tree.value? depth) (c :: cs) t := by
  intro k rest same _
  obtain rfl : j = k := Option.some.inj (stands.symm.trans same)
  refine ⟨[], blank_nil, ?_⟩
  rw [List.cons_append, value_of_scalar opens.1 opens.2.1 opens.2.2, read]
  rfl

theorem items_none (none_taken : item cs = none) (bound : Nat) (read : List Json) :
    items item bound read cs = none := by
  cases bound with
  | zero => rw [items]
  | succ bound => rw [items, none_taken]

theorem items_close {left : List Char} (closed : skip cs = ']' :: left) (bound : Nat)
    (read : List Json) : items (value depth) bound read cs = none := by
  refine items_none ?_ bound read
  cases depth with
  | zero =>
    rw [value, closed]
    rfl
  | succ depth =>
    rw [value, closed]
    rfl

theorem members_close {left : List Char} (closed : skip cs = '\x7d' :: left) (bound : Nat)
    (read : List (String × Json)) : members item bound read cs = none := by
  cases bound with
  | zero => rw [members]
  | succ bound =>
    rw [members, closed]
    rfl

theorem value_list {xs : List Json} (read : items (value depth) cs.length [] cs = some (xs, rest)) :
    value (depth + 1) ('[' :: cs) = some (.list xs, rest) := by
  rw [value, skip_cons (by decide)]
  simp only
  split
  · next closed =>
    rw [items_close closed] at read
    cases read
  · rw [read]
    rfl

theorem value_object_members {ms : List (String × Json)}
    (read : members (value depth) cs.length [] cs = some (ms, rest)) :
    value (depth + 1) ('\x7b' :: cs) = some (record ms, rest) := by
  rw [value, skip_cons (by decide)]
  simp only
  split
  · next closed =>
    rw [members_close closed] at read
    cases read
  · rw [read]
    rfl

theorem length_le_joined (parts : List (List Char)) (c : Char) (rest : List Char) :
    parts.length ≤ (joined parts ++ c :: rest).length := by
  rw [List.length_append, List.length_cons]
  induction parts with
  | nil => exact Nat.zero_le _
  | cons part parts ih =>
    rcases parts with _ | ⟨next, parts⟩
    · rw [List.length_singleton]
      omega
    · have comma : (',' :: joined (next :: parts)).length = (joined (next :: parts)).length + 1 :=
        List.length_cons
      rw [joined_cons (List.cons_ne_nil _ _), List.length_append, comma, List.length_cons]
      omega

theorem takes_list {parts : List (List Char × Tree)} (some_part : parts ≠ [])
    (takes : ∀ depth, ∀ p ∈ parts, Takes (value depth) (Tree.value? depth) p.1 p.2) :
    Takes (value depth) (Tree.value? depth) ('[' :: (joined (parts.map Prod.fst) ++ [']']))
      (.list (parts.map Prod.snd)) := by
  intro j rest stands _
  cases depth with
  | zero => simp [Tree.value?] at stands
  | succ depth =>
    rw [Tree.value?] at stands
    obtain ⟨js, values, rfl⟩ := Option.map_eq_some_iff.mp stands
    have room := length_le_joined (parts.map Prod.fst) ']' rest
    rw [List.length_map] at room
    refine ⟨[], blank_nil, ?_⟩
    rw [List.cons_append, List.append_assoc, List.singleton_append]
    exact value_list (items_eq some_part (takes depth) values room [] rest)

theorem takes_object {parts : List Member} (some_part : parts ≠ [])
    (wellFormed : ∀ m ∈ parts, m.WellFormed)
    (takes : ∀ depth, ∀ m ∈ parts, Takes (value depth) (Tree.value? depth) m.spelled m.value) :
    Takes (value depth) (Tree.value? depth)
      ('\x7b' :: (joined (parts.map Member.chars) ++ ['\x7d']))
      (.object (parts.map Member.entry)) := by
  intro j rest stands _
  cases depth with
  | zero => simp [Tree.value?] at stands
  | succ depth =>
    rw [Tree.value?] at stands
    obtain ⟨js, values, rfl⟩ := Option.map_eq_some_iff.mp stands
    have room := length_le_joined (parts.map Member.chars) '\x7d' rest
    rw [List.length_map] at room
    refine ⟨[], blank_nil, ?_⟩
    rw [List.cons_append, List.append_assoc, List.singleton_append]
    exact value_object_members
      (members_eq some_part wellFormed (takes depth) values room [] rest)

theorem takes_emptyList {blank : List Char} (blanks : Blank blank) :
    Takes (value depth) (Tree.value? depth) ('[' :: (blank ++ [']'])) (.list []) := by
  intro j rest stands _
  cases depth with
  | zero => simp [Tree.value?] at stands
  | succ depth =>
    cases stands
    have closed : skip (blank ++ ']' :: rest) = ']' :: rest := by
      rw [skip_blank blanks, skip_cons (by decide)]
    refine ⟨[], blank_nil, ?_⟩
    rw [List.cons_append, List.append_assoc, List.singleton_append, value, skip_cons (by decide)]
    simp only [closed]
    rfl

theorem takes_emptyObject {blank : List Char} (blanks : Blank blank) :
    Takes (value depth) (Tree.value? depth) ('\x7b' :: (blank ++ ['\x7d'])) (.object []) := by
  intro j rest stands _
  cases depth with
  | zero => simp [Tree.value?] at stands
  | succ depth =>
    cases stands
    have closed : skip (blank ++ '\x7d' :: rest) = '\x7d' :: rest := by
      rw [skip_blank blanks, skip_cons (by decide)]
    refine ⟨[], blank_nil, ?_⟩
    rw [List.cons_append, List.append_assoc, List.singleton_append, value, skip_cons (by decide)]
    simp only [closed]
    rfl

theorem Spells.takes (spells : Spells cs t) (depth : Nat) :
    Takes (value depth) (Tree.value? depth) cs t := by
  induction spells generalizing depth with
  | null => exact takes_scalar (by decide) (by rw [Tree.value?]) fun _ => rfl
  | true => exact takes_scalar (by decide) (by rw [Tree.value?]) fun _ => rfl
  | false => exact takes_scalar (by decide) (by rw [Tree.value?]) fun _ => rfl
  | number wellFormed =>
    intro j rest stands ends
    obtain ⟨c, cs, whole, opens⟩ := exists_numeral wellFormed
    rw [Tree.value?] at stands
    have read := number_eq wellFormed ends
    rw [stands, whole, List.cons_append] at read
    rw [whole, List.cons_append]
    exact ⟨[], blank_nil, (value_number opens _).trans read⟩
  | text quotes =>
    refine takes_scalar (by decide) (by rw [Tree.value?]) fun rest => ?_
    rw [List.append_assoc, List.singleton_append, scalar, quotes.stringRest_eq]
    rfl
  | emptyList blanks => exact takes_emptyList blanks
  | list some_part each ih => exact takes_list some_part fun depth p member => ih p member depth
  | emptyObject blanks => exact takes_emptyObject blanks
  | object some_part wellFormed each ih =>
    exact takes_object some_part wellFormed fun depth m member => ih m member depth
  | padded before behind spells ih =>
    intro j rest stands ends
    obtain ⟨blank, blanks, taken⟩ := ih depth j _ stands (behind.ends ends)
    refine ⟨blank ++ _, blanks.append behind, ?_⟩
    rw [List.append_assoc, value_blank before, List.append_assoc, taken, List.append_assoc]

/-- A text has a value exactly if it spells a tree that has one. -/
theorem readWithin_eq_some_iff {depth : Nat} {text : String} :
    readWithin depth text = some j ↔ ∃ t, Spells text.toList t ∧ t.value? depth = some j := by
  rw [readWithin]
  constructor
  · intro read
    split at read
    · next k rest taken =>
      obtain ⟨front, t, same, spells, stands⟩ := value_sound depth _ _ _ taken
      split at read
      · next all =>
        cases read
        obtain ⟨blank, blanks, left⟩ := exists_blank rest
        rw [List.isEmpty_iff.mp all, List.append_nil] at left
        rw [same, left]
        exact ⟨t, spells.append_blank blanks, stands⟩
      · cases read
    · cases read
  · rintro ⟨t, spells, stands⟩
    obtain ⟨blank, blanks, taken⟩ := spells.takes depth j [] stands (by simp [Ends])
    have left : skip blank = [] := by
      have all := skip_blank blanks []
      rwa [List.append_nil] at all
    rw [List.append_nil, List.append_nil] at taken
    rw [taken]
    simp [left]

/-! ### Members of a tree -/

def last (key : String) (ms : List (String × Tree)) : Option Tree := ms.reverse.lookup key

def Tree.text? : Tree → Option String
  | .text s => some s
  | _ => none

def textOf? (key : String) (ms : List (String × Tree)) : Option String :=
  (last key ms).bind Tree.text?

variable {ms : List (String × Tree)} {js : List (String × Json)}

theorem Numeral.plain_of_value {n : Numeral} (value : n.value? = some j) : Plain j := by
  unfold value? at value
  split at value
  · cases value
    rw [← wholeOf_eq]
    exact wholeOf_plain _ _
  · obtain ⟨x, -, rfl⟩ := Option.map_eq_some_iff.mp value
    exact Or.inr ⟨_, rfl⟩

theorem kind_of_value (value : t.value? depth = some j) :
    j.text? = t.text? ∧ ((∃ js, j = .object js) → ∃ ms, t = .object ms) := by
  cases t with
  | number n =>
    rw [Tree.value?] at value
    rcases Numeral.plain_of_value value with ⟨n, rfl⟩ | ⟨x, rfl⟩
    · exact ⟨rfl, by rintro ⟨js, ⟨⟩⟩⟩
    · exact ⟨rfl, by rintro ⟨js, ⟨⟩⟩⟩
  | list items =>
    cases depth with
    | zero => cases value
    | succ depth =>
      obtain ⟨xs, -, rfl⟩ := Option.map_eq_some_iff.mp value
      exact ⟨rfl, by rintro ⟨js, ⟨⟩⟩⟩
  | object ms =>
    cases depth with
    | zero => cases value
    | succ depth =>
      obtain ⟨xs, -, rfl⟩ := Option.map_eq_some_iff.mp value
      exact ⟨rfl, fun _ => ⟨ms, rfl⟩⟩
  | _ =>
    rw [Tree.value?] at value
    cases value
    exact ⟨rfl, by rintro ⟨js, ⟨⟩⟩⟩

theorem forall₂_of_mapM (values : ms.mapM (memberValue? v) = some js) :
    List.Forall₂ (fun m x => memberValue? v m = some x) ms js := by
  induction ms generalizing js with
  | nil =>
    cases values
    exact .nil
  | cons m ms ih =>
    obtain ⟨x, xs, value, others, rfl⟩ := mapM_cons_eq_some_iff.mp values
    exact .cons value (ih others)

theorem lookup_of_forall₂ (key : String)
    (values : List.Forall₂ (fun m x => memberValue? v m = some x) ms js) :
    (ms.lookup key = none ∧ js.lookup key = none) ∨
      ∃ t x, ms.lookup key = some t ∧ v t = some x ∧ js.lookup key = some x := by
  induction values with
  | nil => exact Or.inl ⟨rfl, rfl⟩
  | @cons m entry ms js value _ ih =>
    obtain ⟨x, stands, rfl⟩ := Option.map_eq_some_iff.mp value
    rw [List.lookup_cons, List.lookup_cons]
    cases key == m.1 with
    | true => exact Or.inr ⟨m.2, x, rfl, stands, rfl⟩
    | false => exact ih

theorem member?_of_value (value : (Tree.object ms).value? (depth + 1) = some j) (key : String) :
    (last key ms = none ∧ j.member? key = none) ∨
      ∃ t x, last key ms = some t ∧ t.value? depth = some x ∧ j.member? key = some x := by
  rw [Tree.value?] at value
  obtain ⟨js, values, rfl⟩ := Option.map_eq_some_iff.mp value
  rw [last, member?_record]
  exact lookup_of_forall₂ key (List.forall₂_reverse_iff.mpr (forall₂_of_mapM values))

end ScreenPreview.Json
